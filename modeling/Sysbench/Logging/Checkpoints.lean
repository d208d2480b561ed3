import Sysbench.Machinery.Qsort
import Sysbench.Machinery.Traces
import Sysbench.Options.Store

/-!
# Logging/Checkpoints — when the reports of `--report-checkpoints` are made

`init` reads the list and sorts it, and a thread of its own sleeps from one checkpoint to the next
and makes a report at each.  Three places decide whether a report is made in its turn and not before
its time:

* the comparison subtracts into an `int`, which is an order only among values less than `2³¹` apart;
* the pause is cut to microseconds, and to the 32 bits of what `usleep` takes;
* the timer stands still once the test is over, while the thread still sleeps and reports.

The list is processed in ascending order *with every qsort* precisely when its values are close
enough, and a report is never early precisely in the runs that avoid the other two
(`checkpoints_kept_iff`).
-/

namespace Sysbench.Logging

open Options

/-! ## The list -/

/-- Why `init` refuses the list. -/
inductive CheckpointError
  | invalidValue (val : CStr)
  | tooMany
  deriving DecidableEq

/-- `MAX_CHECKPOINTS`. -/
def maxCheckpoints : ℕ := 256

/-- The loop of `init` over the values of `--report-checkpoints`, behind the checkpoints that are in
the array already. -/
def readCheckpoints : List ℕ → List CStr → Except CheckpointError (List ℕ)
  | checkpoints, [] => .ok checkpoints
  | checkpoints, val :: vals =>
    let res := strtol val.bytes
    if res.2 ≠ [] ∨ res.1 < 0 ∨ 2 ^ 32 - 1 < res.1 then .error (.invalidValue val)
    else if maxCheckpoints < checkpoints.length + 1 then .error .tooMany
    else readCheckpoints (checkpoints ++ [toU32 res.1]) vals

/-- `checkpoint_cmp`. -/
def checkpointCmp (a b : ℕ) : ℤ := toI32 (toU32 (a - b))

/-- `init`, as far as it is about the checkpoints: the array they are processed in. -/
def initCheckpoints (qsort : Qsort ℕ) (vals : List CStr) : Except CheckpointError (List ℕ) := do
  let checkpoints ← readCheckpoints [] vals
  return if 0 < checkpoints.length then qsort.sort checkpointCmp checkpoints else checkpoints

/-! ## The thread -/

/-- `SEC2NS`. -/
def sec2ns (sec : ℕ) : ℕ := toU64 (sec * 1000000000)

/-- How long `usleep(pause_ns / 1000)` sleeps at least, in nanoseconds. -/
def usleepNs (pauseNs : ℕ) : ℕ := toU32 (pauseNs / 1000 : ℕ) * 1000

/-- Where the thread is: at the head of its loop, asleep (not before `wakeAt`), about to report with
the timer at `curr`, or at its end. -/
inductive CheckpointPc
  | loop
  | asleep (wakeAt : ℕ)
  | awake (curr : ℕ)
  | done
  deriving DecidableEq, Repr

/-- The thread, its loop counter, and the clock of the execution timer.  `stopped` is what the timer
shows once `run_test` has stopped it.  A report is kept as the index of its checkpoint and the
execution time it is made at. -/
structure Checkpointer where
  pc : CheckpointPc
  i : ℕ
  now : ℕ
  stopped : Option ℕ
  reports : List (ℕ × ℕ)
  deriving DecidableEq, Repr

/-- `sb_timer_value(&sb_globals.exec_timer)`, with the clock at `t`. -/
def Checkpointer.timerValue (s : Checkpointer) (t : ℕ) : ℕ := s.stopped.getD t

/-- `check t` and `wake t`: the thread reads the timer at the time `t`, at the head of its loop and
after `usleep`.  `stop t`: the test is over. -/
inductive CheckpointMove
  | check (t : ℕ)
  | wake (t : ℕ)
  | report
  | stop (t : ℕ)
  deriving DecidableEq, Repr

/-- The thread behind the barrier: it ends at once if the barrier fails, or if the test has no
reports. -/
def startCheckpoints (barrier : ℤ) (hasPrintStats : Bool) : Checkpointer :=
  { pc := if barrier < 0 then .done else if hasPrintStats then .loop else .done
    i := 0
    now := 0
    stopped := none
    reports := [] }

/-- The head of the loop of `checkpoints_thread_proc`. -/
def Checkpointer.check (checkpoints : List ℕ) (s : Checkpointer) (t : ℕ) : Checkpointer :=
  match checkpoints[s.i]? with
  | none => { s with pc := .done, now := t }
  | some c =>
    if sec2ns c ≤ s.timerValue t then { s with i := s.i + 1, now := t }
    else { s with pc := .asleep (t + usleepNs (sec2ns c - s.timerValue t)), now := t }

/-- The moves; the clock does not go back. -/
def checkpointMove (checkpoints : List ℕ) (s : Checkpointer) : CheckpointMove → Option Checkpointer
  | .check t => if s.pc = .loop ∧ s.now ≤ t then some (s.check checkpoints t) else none
  | .wake t =>
    match s.pc with
    | .asleep wakeAt =>
      if wakeAt ≤ t ∧ s.now ≤ t then some { s with pc := .awake (s.timerValue t), now := t }
      else none
    | _ => none
  | .report =>
    match s.pc with
    | .awake curr =>
      some { s with pc := .loop, i := s.i + 1, reports := s.reports ++ [(s.i, curr)] }
    | _ => none
  | .stop t =>
    if s.stopped = none ∧ s.now ≤ t then some { s with stopped := some t, now := t } else none

/-- A run with the list `vals`: `init` makes the array, and the thread goes through it. -/
def CheckpointRun (q : Qsort ℕ) (vals : List CStr) (checkpoints : List ℕ)
    (hist : List (Checkpointer × CheckpointMove)) (s : Checkpointer) : Prop :=
  initCheckpoints q vals = .ok checkpoints ∧ ∃ barrier hasPrintStats,
    Run (checkpointMove checkpoints) (startCheckpoints barrier hasPrintStats) hist s

/-! ## What is expected of it -/

/-- The checkpoints that the thread has come to, in order. -/
def processed (checkpoints : List ℕ) (hist : List (Checkpointer × CheckpointMove)) : List ℕ :=
  hist.filterMap fun e =>
    match e.2 with
    | .check _ => checkpoints[e.1.i]?
    | _ => none

/-- A report made at an execution time not before its checkpoint. -/
def Timely (checkpoints : List ℕ) (r : ℕ × ℕ) : Prop :=
  ∃ c, checkpoints[r.1]? = some c ∧ sec2ns c ≤ r.2

/-- **What a run should keep**: no report is early, the checkpoints come in ascending order, and
each entry of the list has at most one report. -/
structure CheckpointsKept (checkpoints : List ℕ) (hist : List (Checkpointer × CheckpointMove))
    (s : Checkpointer) : Prop where
  timely : ∀ r ∈ s.reports, Timely checkpoints r
  ascending : (processed checkpoints hist).Pairwise (· ≤ ·)
  once : (s.reports.map Prod.fst).Nodup

/-- A pause that `usleep` can take: whole microseconds, in 32 bits. -/
def WholePause (pauseNs : ℕ) : Prop := pauseNs % 1000 = 0 ∧ pauseNs / 1000 < 2 ^ 32

instance (pauseNs : ℕ) : Decidable (WholePause pauseNs) :=
  inferInstanceAs (Decidable (pauseNs % 1000 = 0 ∧ pauseNs / 1000 < 2 ^ 32))

/-- The condition on a move: the thread goes to sleep with a pause that `usleep` can take, and wakes
before the timer is stopped, or for a checkpoint that was due by then. -/
def OnTime (checkpoints : List ℕ) (e : Checkpointer × CheckpointMove) : Prop :=
  match e.2 with
  | .check t => ∀ c ∈ checkpoints[e.1.i]?, e.1.timerValue t < sec2ns c →
      WholePause (sec2ns c - e.1.timerValue t)
  | .wake _ => ∀ c ∈ checkpoints[e.1.i]?, ∀ stop ∈ e.1.stopped, sec2ns c ≤ stop
  | _ => True

instance (checkpoints : List ℕ) :
    ∀ e : Checkpointer × CheckpointMove, Decidable (OnTime checkpoints e)
  | (s, .check t) => inferInstanceAs (Decidable (∀ c ∈ checkpoints[s.i]?,
      s.timerValue t < sec2ns c → WholePause (sec2ns c - s.timerValue t)))
  | (s, .wake _) => inferInstanceAs (Decidable (∀ c ∈ checkpoints[s.i]?,
      ∀ stop ∈ s.stopped, sec2ns c ≤ stop))
  | (_, .report) | (_, .stop _) => inferInstanceAs (Decidable True)

/-! ## The order of the list -/

/-- All values are less than `2³¹` apart. -/
def Close (checkpoints : List ℕ) : Prop := ∀ a ∈ checkpoints, ∀ b ∈ checkpoints, a < b + 2 ^ 31

theorem lt_of_readCheckpoints {vals : List CStr} {cs cs' : List ℕ}
    (h : readCheckpoints cs vals = .ok cs') (hcs : ∀ c ∈ cs, c < 2 ^ 32) :
    ∀ c ∈ cs', c < 2 ^ 32 := by
  induction vals generalizing cs with
  | nil =>
    cases h
    exact hcs
  | cons val vals ih =>
    rw [readCheckpoints] at h
    split_ifs at h
    refine ih h ?_
    rw [List.forall_mem_append, List.forall_mem_singleton]
    exact ⟨hcs, toU32_lt _⟩

theorem checkpointCmp_of_close {a b : ℕ} (hab : a < b + 2 ^ 31) (hba : b < a + 2 ^ 31) :
    checkpointCmp a b = a - b := by
  unfold checkpointCmp toI32 toU32
  omega

theorem checkpointCmp_neg_of_far {a b : ℕ} (ha : a < 2 ^ 32) (hfar : b + 2 ^ 31 ≤ a) :
    checkpointCmp a b < 0 := by
  unfold checkpointCmp toI32 toU32
  omega

theorem eq_of_checkpointCmp {a b : ℕ} (ha : a < 2 ^ 32) (hb : b < 2 ^ 32)
    (h : checkpointCmp a b = 0) : a = b := by
  unfold checkpointCmp toI32 toU32 at h
  omega

/-- Among close values the comparison is that of the numbers. -/
theorem Close.consistentOn {cs : List ℕ} (h : Close cs) : ConsistentOn checkpointCmp cs where
  flip := by
    intro a ha b hb
    rw [checkpointCmp_of_close (h a ha b hb) (h b hb a ha),
      checkpointCmp_of_close (h b hb a ha) (h a ha b hb)]
    omega
  trans := by
    intro a ha b hb c hc
    rw [checkpointCmp_of_close (h a ha b hb) (h b hb a ha),
      checkpointCmp_of_close (h b hb c hc) (h c hc b hb),
      checkpointCmp_of_close (h a ha c hc) (h c hc a ha)]
    omega

/-- Close values are sorted. -/
theorem Close.sort {cs : List ℕ} (h : Close cs) (q : Qsort ℕ) :
    (q.sort checkpointCmp cs).Pairwise (· ≤ ·) := by
  refine (q.sorts _ _ h.consistentOn).imp_of_mem fun ha hb hab => ?_
  rw [Qsort.mem_sort] at ha hb
  rw [checkpointCmp_of_close (h _ ha _ hb) (h _ hb _ ha)] at hab
  omega

/-- **Some qsort does not sort values that are far apart.**  If the comparison happens to be an
order it is the wrong one, and otherwise qsort is free to sort the other way round. -/
theorem close_of_forall_sort {cs : List ℕ} (hlt : ∀ c ∈ cs, c < 2 ^ 32)
    (h : ∀ q : Qsort ℕ, (q.sort checkpointCmp cs).Pairwise (· ≤ ·)) : Close cs := by
  intro a ha b hb
  by_contra hfar
  rw [not_lt] at hfar
  have hne : b ≠ a := by omega
  let q : Qsort ℕ := .orElse (List.insertionSort (· ≥ ·)) (List.perm_insertionSort _)
  have hasc := h q
  by_cases hcons : ConsistentOn checkpointCmp cs
  · have hboth := hasc.and (q.sorts _ _ hcons)
    have hneg := checkpointCmp_neg_of_far (hlt a ha) hfar
    have hflip := (hcons.flip a ha b hb).mp hneg.le
    rcases rel_or_rel_of_pairwise hboth (Qsort.mem_sort.mpr hb) (Qsort.mem_sort.mpr ha) hne with
      hba | hab
    · have heq := eq_of_checkpointCmp (hlt b hb) (hlt a ha) (le_antisymm hba.2 hflip)
      exact hne heq
    · omega
  · rw [Qsort.orElse_of_not hcons] at hasc
    have hboth := hasc.and (List.pairwise_insertionSort (· ≥ ·) cs)
    have hmem : ∀ {c}, c ∈ cs → c ∈ cs.insertionSort (· ≥ ·) := (List.mem_insertionSort _).mpr
    rcases rel_or_rel_of_pairwise hboth (hmem hb) (hmem ha) hne with hba | hab
    · omega
    · omega

/-- Where the comparison is an order, all qsorts agree. -/
theorem sort_eq {cs sorted : List ℕ} (hcons : ConsistentOn checkpointCmp cs)
    (hlt : ∀ c ∈ cs, c < 2 ^ 32) (hperm : sorted.Perm cs)
    (hsorted : sorted.Pairwise fun a b => checkpointCmp a b ≤ 0) (q : Qsort ℕ) :
    q.sort checkpointCmp cs = sorted := by
  refine List.Perm.eq_of_pairwise (fun a b ha hb hab hba => ?_) (q.sorts _ _ hcons) hsorted
    ((q.perm _ _).trans hperm.symm)
  have ha := Qsort.mem_sort.mp ha
  have hb := hperm.mem_iff.mp hb
  exact eq_of_checkpointCmp (hlt a ha) (hlt b hb)
    (le_antisymm hab ((hcons.flip b hb a ha).mp hba))

theorem initCheckpoints_eq {vals : List CStr} {cs : List ℕ} (h : readCheckpoints [] vals = .ok cs)
    (q : Qsort ℕ) : initCheckpoints q vals = .ok (q.sort checkpointCmp cs) := by
  rw [initCheckpoints, h]
  cases cs with
  | nil =>
    have hnil := (q.perm checkpointCmp []).eq_nil
    rw [hnil]
    rfl
  | cons c cs => rfl

/-! ## What a move can do -/

variable {cs : List ℕ} {s s' : Checkpointer} {m : CheckpointMove}
  {hist : List (Checkpointer × CheckpointMove)}

/-- **The moves**, each with what it needs of the state before it. -/
inductive CheckpointStep (cs : List ℕ) (s : Checkpointer) : CheckpointMove → Checkpointer → Prop
  | leave {t : ℕ} (hpc : s.pc = .loop) (hend : cs[s.i]? = none) :
      CheckpointStep cs s (.check t) { s with pc := .done, now := t }
  | skip {t c : ℕ} (hpc : s.pc = .loop) (hc : cs[s.i]? = some c)
      (hpast : sec2ns c ≤ s.timerValue t) :
      CheckpointStep cs s (.check t) { s with i := s.i + 1, now := t }
  | sleep {t c : ℕ} (hpc : s.pc = .loop) (hc : cs[s.i]? = some c)
      (hdue : s.timerValue t < sec2ns c) :
      CheckpointStep cs s (.check t)
        { s with pc := .asleep (t + usleepNs (sec2ns c - s.timerValue t)), now := t }
  | wake {t wakeAt : ℕ} (hpc : s.pc = .asleep wakeAt) (hwake : wakeAt ≤ t) :
      CheckpointStep cs s (.wake t) { s with pc := .awake (s.timerValue t), now := t }
  | report {curr : ℕ} (hpc : s.pc = .awake curr) :
      CheckpointStep cs s .report
        { s with pc := .loop, i := s.i + 1, reports := s.reports ++ [(s.i, curr)] }
  | stop {t : ℕ} (hstop : s.stopped = none) :
      CheckpointStep cs s (.stop t) { s with stopped := some t, now := t }

theorem checkpointStep_of_check {t : ℕ} (hpc : s.pc = .loop) :
    CheckpointStep cs s (.check t) (s.check cs t) := by
  rw [Checkpointer.check]
  cases hc : cs[s.i]? with
  | none => exact .leave hpc hc
  | some c =>
    by_cases hpast : sec2ns c ≤ s.timerValue t
    · simp only [if_pos hpast]
      exact .skip hpc hc hpast
    · simp only [if_neg hpast]
      exact .sleep hpc hc (by omega)

theorem checkpointStep_of_move (h : checkpointMove cs s m = some s') :
    CheckpointStep cs s m s' := by
  cases m with
  | check t =>
    obtain ⟨⟨hpc, -⟩, heq⟩ := Option.ite_none_right_eq_some.mp h
    cases heq
    exact checkpointStep_of_check hpc
  | wake t =>
    cases hpc : s.pc with
    | asleep wakeAt =>
      simp only [checkpointMove, hpc] at h
      obtain ⟨⟨hwake, -⟩, heq⟩ := Option.ite_none_right_eq_some.mp h
      cases heq
      exact .wake hpc hwake
    | _ => simp [checkpointMove, hpc] at h
  | report =>
    cases hpc : s.pc with
    | awake curr =>
      simp only [checkpointMove, hpc] at h
      cases h
      exact .report hpc
    | _ => simp [checkpointMove, hpc] at h
  | stop t =>
    obtain ⟨⟨hstop, -⟩, heq⟩ := Option.ite_none_right_eq_some.mp h
    cases heq
    exact .stop hstop

/-! ## What holds in every run -/

/-- How many of the checkpoints the thread has come to. -/
def Checkpointer.taken (s : Checkpointer) : ℕ :=
  match s.pc with
  | .asleep _ | .awake _ => s.i + 1
  | _ => s.i

theorem processed_concat (hist : List (Checkpointer × CheckpointMove)) (s : Checkpointer)
    (m : CheckpointMove) :
    processed cs (hist ++ [(s, m)]) = processed cs hist ++ processed cs [(s, m)] :=
  List.filterMap_append

/-- **The loop invariant**: the array has been processed from its start, and the reports are those
of different entries behind the loop counter. -/
structure CheckpointInv (cs : List ℕ) (hist : List (Checkpointer × CheckpointMove))
    (s : Checkpointer) : Prop where
  taken : processed cs hist = cs.take s.taken
  behind : ∀ r ∈ s.reports, r.1 < s.i
  once : (s.reports.map Prod.fst).Nodup

theorem CheckpointInv.step (hI : CheckpointInv cs hist s) (h : checkpointMove cs s m = some s') :
    CheckpointInv cs (hist ++ [(s, m)]) s' := by
  obtain ⟨hproc, hbehind, honce⟩ := hI
  -- an entry is processed where the thread comes to it, asleep or not
  have hnext : ∀ {t c : ℕ}, cs[s.i]? = some c → s.pc = .loop →
      processed cs (hist ++ [(s, CheckpointMove.check t)]) = cs.take (s.i + 1) := by
    intro t c hc hpc
    rw [processed_concat, hproc, Checkpointer.taken, hpc, List.take_add_one]
    simp [processed, hc]
  cases checkpointStep_of_move h with
  | leave hpc hend =>
    refine ⟨?_, hbehind, honce⟩
    rw [processed_concat, hproc, Checkpointer.taken, hpc]
    simp [processed, hend, Checkpointer.taken]
  | skip hpc hc hpast =>
    refine ⟨?_, fun r hr => (hbehind r hr).trans (Nat.lt_succ_self _), honce⟩
    rw [hnext hc hpc, Checkpointer.taken, hpc]
  | sleep hpc hc hdue =>
    exact ⟨hnext hc hpc, hbehind, honce⟩
  | wake hpc hwake =>
    refine ⟨?_, hbehind, honce⟩
    rw [processed_concat, hproc, Checkpointer.taken, hpc]
    simp [processed, Checkpointer.taken]
  | report hpc =>
    refine ⟨?_, ?_, ?_⟩
    · rw [processed_concat, hproc, Checkpointer.taken, hpc]
      simp [processed, Checkpointer.taken]
    · rw [List.forall_mem_append, List.forall_mem_singleton]
      exact ⟨fun r hr => (hbehind r hr).trans (Nat.lt_succ_self _), Nat.lt_succ_self _⟩
    · rw [List.map_append, List.map_singleton, List.nodup_append_comm, List.singleton_append,
        List.nodup_cons]
      refine ⟨?_, honce⟩
      rw [List.mem_map]
      rintro ⟨r, hr, heq⟩
      exact absurd (hbehind r hr) (heq ▸ lt_irrefl _)
  | stop hstop =>
    refine ⟨?_, hbehind, honce⟩
    rw [processed_concat, hproc]
    exact List.append_nil _

theorem CheckpointInv.start (barrier : ℤ) (hasPrintStats : Bool) :
    CheckpointInv cs [] (startCheckpoints barrier hasPrintStats) where
  taken := by
    rw [Checkpointer.taken, startCheckpoints]
    split_ifs <;> rfl
  behind r hr := absurd hr List.not_mem_nil
  once := List.nodup_nil

theorem checkpointInv_of_run {barrier : ℤ} {hasPrintStats : Bool}
    (h : Run (checkpointMove cs) (startCheckpoints barrier hasPrintStats) hist s) :
    CheckpointInv cs hist s :=
  h.induction (CheckpointInv cs) (.start _ _) fun _ _ _ _ hI hs => hI.step hs

/-! ## Pauses -/

theorem usleepNs_eq {pauseNs : ℕ} (h : WholePause pauseNs) : usleepNs pauseNs = pauseNs := by
  rw [usleepNs, toU32_of_lt h.2]
  exact Nat.div_mul_cancel (Nat.dvd_of_mod_eq_zero h.1)

theorem usleepNs_lt {pauseNs : ℕ} (h : ¬ WholePause pauseNs) : usleepNs pauseNs < pauseNs := by
  unfold usleepNs toU32
  rw [WholePause] at h
  omega

theorem sec2ns_lt (sec : ℕ) : sec2ns sec < 2 ^ 64 := by
  unfold sec2ns toU64
  omega

/-- **Nothing has been early**: a thread that sleeps with the timer running sleeps until its
checkpoint, and reports behind it. -/
structure TimelyInv (cs : List ℕ) (s : Checkpointer) : Prop where
  asleep : ∀ wakeAt, s.pc = .asleep wakeAt →
    ∃ c, cs[s.i]? = some c ∧ (s.stopped = none → sec2ns c ≤ wakeAt)
  awake : ∀ curr, s.pc = .awake curr → Timely cs (s.i, curr)
  reports : ∀ r ∈ s.reports, Timely cs r

/-- A thread between two checkpoints, or at its end, owes nothing. -/
theorem TimelyInv.of_idle (hpc : s.pc = .loop ∨ s.pc = .done)
    (hreports : ∀ r ∈ s.reports, Timely cs r) : TimelyInv cs s where
  asleep wakeAt hpc' := by
    rcases hpc with hpc | hpc <;> exact absurd (hpc.symm.trans hpc') (by simp)
  awake curr hpc' := by rcases hpc with hpc | hpc <;> exact absurd (hpc.symm.trans hpc') (by simp)
  reports := hreports

theorem TimelyInv.start (barrier : ℤ) (hasPrintStats : Bool) :
    TimelyInv cs (startCheckpoints barrier hasPrintStats) := by
  refine .of_idle ?_ fun r hr => absurd hr List.not_mem_nil
  rw [startCheckpoints]
  split_ifs
  · exact .inr rfl
  · exact .inl rfl
  · exact .inr rfl

theorem TimelyInv.step (hI : TimelyInv cs s) (hok : OnTime cs (s, m))
    (h : checkpointMove cs s m = some s') : TimelyInv cs s' := by
  obtain ⟨hasleep, hawake, hreports⟩ := hI
  cases checkpointStep_of_move h with
  | leave hpc hend => exact .of_idle (.inr rfl) hreports
  | skip hpc hc hpast => exact .of_idle (.inl hpc) hreports
  | @sleep t c hpc hc hdue =>
    refine ⟨?_, fun _ hpc' => absurd hpc' (by simp), hreports⟩
    rintro _ ⟨⟩
    refine ⟨c, hc, fun hstop => ?_⟩
    rw [usleepNs_eq (hok c hc hdue)]
    have hvalue : s.timerValue t = t := by rw [Checkpointer.timerValue, hstop, Option.getD_none]
    rw [hvalue]
    omega
  | @wake t wakeAt hpc hwake =>
    refine ⟨fun _ hpc' => absurd hpc' (by simp), ?_, hreports⟩
    rintro _ ⟨⟩
    obtain ⟨c, hc, hdue⟩ := hasleep wakeAt hpc
    refine ⟨c, hc, ?_⟩
    cases hstop : s.stopped with
    | none =>
      rw [Checkpointer.timerValue, hstop]
      exact (hdue hstop).trans hwake
    | some stop =>
      rw [Checkpointer.timerValue, hstop]
      exact hok c hc stop hstop
  | report hpc =>
    refine .of_idle (.inl rfl) ?_
    rw [List.forall_mem_append, List.forall_mem_singleton]
    exact ⟨hreports, hawake _ hpc⟩
  | stop hstop =>
    refine ⟨fun wakeAt hpc => ?_, hawake, hreports⟩
    obtain ⟨c, hc, -⟩ := hasleep wakeAt hpc
    exact ⟨c, hc, fun hnone => absurd hnone (by simp)⟩

/-- **No report is early in a run that meets the condition.** -/
theorem timely_of_run {barrier : ℤ} {hasPrintStats : Bool}
    (h : Run (checkpointMove cs) (startCheckpoints barrier hasPrintStats) hist s)
    (hok : ∀ e ∈ hist, OnTime cs e) : ∀ r ∈ s.reports, Timely cs r :=
  (h.invariant (TimelyInv cs) (OnTime cs) (.start _ _)
    (fun _ _ _ hI hok hs => hI.step hok hs) hok).reports

/-! ## What can happen otherwise -/

/-- Some report is early. -/
def SomeEarly (cs : List ℕ) (s : Checkpointer) : Prop := ∃ r ∈ s.reports, ¬ Timely cs r

theorem not_timely {i c curr : ℕ} (hc : cs[i]? = some c) (hlt : curr < sec2ns c) :
    ¬ Timely cs (i, curr) := by
  rintro ⟨c', hc', hle⟩
  have heq : c = c' := Option.some.inj (hc.symm.trans hc')
  exact absurd hle (heq ▸ not_le.mpr hlt)

/-- A thread that is awake too early reports too early. -/
theorem someEarly_of_awake {s₀ : Checkpointer} (h : Run (checkpointMove cs) s₀ hist s) {c curr : ℕ}
    (hpc : s.pc = .awake curr) (hc : cs[s.i]? = some c) (hlt : curr < sec2ns c) :
    ∃ hist' s', Run (checkpointMove cs) s₀ hist' s' ∧ SomeEarly cs s' := by
  have hmove : checkpointMove cs s .report = some
      { s with pc := .loop, i := s.i + 1, reports := s.reports ++ [(s.i, curr)] } := by
    simp only [checkpointMove, hpc]
  refine ⟨_, _, Run.snoc h hmove, (s.i, curr), ?_, not_timely hc hlt⟩
  exact List.mem_append_right _ (List.mem_singleton_self _)

/-- A thread that sleeps too short, woken as soon as `usleep` may return. -/
theorem someEarly_of_asleep {s₀ : Checkpointer} {t c : ℕ}
    (h : Run (checkpointMove cs) s₀ hist
      { s with pc := .asleep (t + usleepNs (sec2ns c - s.timerValue t)), now := t })
    (hc : cs[s.i]? = some c) (hdue : s.timerValue t < sec2ns c)
    (hshort : ¬ WholePause (sec2ns c - s.timerValue t)) :
    ∃ hist' s', Run (checkpointMove cs) s₀ hist' s' ∧ SomeEarly cs s' := by
  have hlt := usleepNs_lt hshort
  generalize hw : t + usleepNs (sec2ns c - s.timerValue t) = wakeAt at h
  have hwake : checkpointMove cs { s with pc := .asleep wakeAt, now := t } (.wake wakeAt)
      = some { s with pc := .awake (s.timerValue wakeAt), now := wakeAt } :=
    if_pos ⟨le_rfl, by simp only; omega⟩
  refine someEarly_of_awake (Run.snoc h hwake) rfl hc ?_
  cases hstop : s.stopped with
  | none =>
    rw [Checkpointer.timerValue, hstop, Option.getD_none] at hw hlt hdue ⊢
    omega
  | some stop =>
    rw [Checkpointer.timerValue, hstop, Option.getD_some] at hdue ⊢
    exact hdue

/-- **The condition is exact**: a run with a move that misses it can go on from there so that a
report is early. -/
theorem someEarly_of_not_onTime {s₀ : Checkpointer} (h : Run (checkpointMove cs) s₀ hist s)
    {e : Checkpointer × CheckpointMove} (he : e ∈ hist) (hmiss : ¬ OnTime cs e) :
    ∃ hist' s', Run (checkpointMove cs) s₀ hist' s' ∧ SomeEarly cs s' := by
  obtain ⟨before, after, rfl⟩ := List.append_of_mem he
  obtain ⟨s', hbefore, hmove, -⟩ := Run.split h
  obtain ⟨u, m⟩ := e
  have hrun := Run.snoc hbefore hmove
  cases checkpointStep_of_move hmove with
  | leave hpc hend => exact absurd (fun c hc => absurd (hend.symm.trans hc) (by simp)) hmiss
  | skip hpc hc hpast =>
    refine absurd (fun c' hc' hdue => ?_) hmiss
    have heq := Option.some.inj (hc.symm.trans hc')
    exact absurd hdue (heq ▸ not_lt.mpr hpast)
  | @sleep t c hpc hc hdue =>
    have hshort : ¬ WholePause (sec2ns c - u.timerValue t) := by
      intro hwhole
      refine hmiss fun c' hc' _ => ?_
      obtain rfl := Option.some.inj (hc.symm.trans hc')
      exact hwhole
    exact someEarly_of_asleep hrun hc hdue hshort
  | @wake t wakeAt hpc hwake =>
    have hstopped : ∃ c ∈ cs[u.i]?, ∃ stop ∈ u.stopped, stop < sec2ns c := by
      by_contra hnone
      refine hmiss fun c hc stop hstop => ?_
      by_contra hlt
      exact hnone ⟨c, hc, stop, hstop, not_le.mp hlt⟩
    obtain ⟨c, hc, stop, hstop, hlt⟩ := hstopped
    refine someEarly_of_awake hrun rfl hc ?_
    rw [Checkpointer.timerValue, hstop]
    exact hlt
  | report hpc => exact absurd trivial hmiss
  | stop hstop => exact absurd trivial hmiss

/-- A thread that is late for all checkpoints skips them one after the other. -/
theorem exists_skipped {k : ℕ} (hk : k ≤ cs.length) :
    ∃ hist s, Run (checkpointMove cs) (startCheckpoints 0 true) hist s ∧
      (∀ e ∈ hist, OnTime cs e) ∧ s.pc = .loop ∧ s.i = k ∧ s.stopped = none ∧ s.now ≤ 2 ^ 64 := by
  induction k with
  | zero =>
    exact ⟨[], _, Trace.nil, fun e he => absurd he List.not_mem_nil, rfl, rfl, rfl, Nat.zero_le _⟩
  | succ k ih =>
    obtain ⟨hist, s, hrun, hok, hpc, rfl, hstop, hnow⟩ := ih (by omega)
    obtain ⟨c, hc⟩ : ∃ c, cs[s.i]? = some c := ⟨_, List.getElem?_eq_getElem hk⟩
    have hvalue : s.timerValue (2 ^ 64) = 2 ^ 64 := by
      rw [Checkpointer.timerValue, hstop, Option.getD_none]
    have hpast : sec2ns c ≤ s.timerValue (2 ^ 64) := by
      rw [hvalue]
      exact (sec2ns_lt c).le
    have hmove : checkpointMove cs s (.check (2 ^ 64))
        = some { s with i := s.i + 1, now := 2 ^ 64 } := by
      rw [checkpointMove, if_pos ⟨hpc, hnow⟩, Checkpointer.check, hc]
      simp only [if_pos hpast]
    refine ⟨_, _, Run.snoc hrun hmove, ?_, hpc, rfl, hstop, le_rfl⟩
    rw [List.forall_mem_append, List.forall_mem_singleton]
    refine ⟨hok, fun c' hc' hdue => ?_⟩
    obtain rfl := Option.some.inj (hc.symm.trans hc')
    exact absurd hdue (not_lt.mpr hpast)

/-- If every run processes the array in ascending order, the array is in that order. -/
theorem ascending_of_forall_run
    (h : ∀ hist s, Run (checkpointMove cs) (startCheckpoints 0 true) hist s →
      (∀ e ∈ hist, OnTime cs e) → (processed cs hist).Pairwise (· ≤ ·)) :
    cs.Pairwise (· ≤ ·) := by
  obtain ⟨hist, s, hrun, hok, hpc, hi, -, -⟩ := exists_skipped (le_refl cs.length)
  have hasc := h hist s hrun hok
  rw [(checkpointInv_of_run hrun).taken, Checkpointer.taken, hpc] at hasc
  simpa [hi] using hasc

/-- **When checkpoints are kept.**  With every qsort, all runs that meet the condition at every move
keep the checkpoints, precisely if the values of the list are close; and a run that misses the
condition can end with an early report. -/
theorem checkpoints_kept_iff {vals : List CStr} {values : List ℕ}
    (h : readCheckpoints [] vals = .ok values) :
    ((∀ q array hist s, CheckpointRun q vals array hist s → (∀ e ∈ hist, OnTime array e) →
      CheckpointsKept array hist s) ↔ Close values) ∧
    ∀ q array hist s, CheckpointRun q vals array hist s → (∃ e ∈ hist, ¬ OnTime array e) →
      ∃ hist' s', CheckpointRun q vals array hist' s' ∧ SomeEarly array s' := by
  have hlt : ∀ c ∈ values, c < 2 ^ 32 :=
    lt_of_readCheckpoints h fun c hc => absurd hc List.not_mem_nil
  refine ⟨⟨?_, ?_⟩, ?_⟩
  · intro hkept
    refine close_of_forall_sort hlt fun q => ascending_of_forall_run fun hist s hrun hok => ?_
    exact (hkept q _ hist s ⟨initCheckpoints_eq h q, 0, true, hrun⟩ hok).ascending
  · rintro hclose q array hist s ⟨harray, barrier, hasPrintStats, hrun⟩ hok
    cases harray.symm.trans (initCheckpoints_eq h q)
    have hinv := checkpointInv_of_run hrun
    refine ⟨timely_of_run hrun hok, ?_, hinv.once⟩
    rw [hinv.taken]
    exact (hclose.sort q).sublist (List.take_sublist _ _)
  · rintro q array hist s ⟨harray, barrier, hasPrintStats, hrun⟩ ⟨e, he, hmiss⟩
    obtain ⟨hist', s', hrun', hearly⟩ := someEarly_of_not_onTime hrun he hmiss
    exact ⟨hist', s', ⟨harray, barrier, hasPrintStats, hrun'⟩, hearly⟩

/-- Checkpoints at one and two seconds, slept to without a hitch. -/
theorem checkpoints_kept_twoSeconds :
    readCheckpoints [] [.lit "1", .lit "2"] = .ok [1, 2] ∧ ∀ q, ∃ hist s,
      CheckpointRun q [.lit "1", .lit "2"] [1, 2] hist s ∧
      s.reports = [(0, 1000000000), (1, 2000000000)] ∧ CheckpointsKept [1, 2] hist s := by
  have hread : readCheckpoints [] [.lit "1", .lit "2"] = .ok [1, 2] := rfl
  have hclose : Close [1, 2] := by simp [Close]
  refine ⟨hread, fun q => ?_⟩
  have hsort : q.sort checkpointCmp [1, 2] = [1, 2] :=
    sort_eq hclose.consistentOn (by decide) (List.Perm.refl _) (by decide) q
  have hinit := hsort ▸ initCheckpoints_eq hread q
  obtain ⟨hist, s, hplay, hok, hreports⟩ : ∃ hist s,
      Run.play (checkpointMove [1, 2]) (startCheckpoints 0 true)
        [.check 0, .wake 1000000000, .report, .check 1000000000, .wake 2000000000, .report]
        = some (hist, s) ∧ (∀ e ∈ hist, OnTime [1, 2] e) ∧
      s.reports = [(0, 1000000000), (1, 2000000000)] := ⟨_, _, rfl, by decide, rfl⟩
  have hrun : CheckpointRun q _ [1, 2] hist s := ⟨hinit, 0, true, Run.of_play hplay⟩
  exact ⟨hist, s, hrun, hreports, (checkpoints_kept_iff hread).1.mpr hclose q _ _ _ hrun hok⟩

/-- **Checkpoints at 0 and at 2147483649 seconds**: they are sorted the wrong way round, and the
thread sleeps for one second of the 68 years. -/
theorem checkpoints_notKept :
    readCheckpoints [] [.lit "0", .lit "2147483649"] = .ok [0, 2147483649] ∧ ∀ q, ∃ hist s,
      CheckpointRun q [.lit "0", .lit "2147483649"] [2147483649, 0] hist s ∧
      s.reports = [(0, 1000000000)] ∧
      processed [2147483649, 0] hist = [2147483649, 0] ∧
      ¬ CheckpointsKept [2147483649, 0] hist s := by
  have hread : readCheckpoints [] [.lit "0", .lit "2147483649"] = .ok [0, 2147483649] := rfl
  have hcons : ConsistentOn checkpointCmp [0, 2147483649] := ⟨by decide, by decide⟩
  refine ⟨hread, fun q => ?_⟩
  have hsort : q.sort checkpointCmp [0, 2147483649] = [2147483649, 0] :=
    sort_eq hcons (by decide) (List.Perm.swap _ _ _) (by decide) q
  have hinit := hsort ▸ initCheckpoints_eq hread q
  obtain ⟨hist, s, hplay, hreports, hproc⟩ : ∃ hist s,
      Run.play (checkpointMove [2147483649, 0]) (startCheckpoints 0 true)
        [.check 0, .wake 1000000000, .report, .check 1000000000] = some (hist, s) ∧
      s.reports = [(0, 1000000000)] ∧
      processed [2147483649, 0] hist = [2147483649, 0] := ⟨_, _, rfl, rfl, rfl⟩
  refine ⟨hist, s, ⟨hinit, 0, true, Run.of_play hplay⟩, hreports, hproc, fun hkept => ?_⟩
  have hasc := hkept.ascending
  rw [hproc] at hasc
  exact absurd hasc (by decide)

end Sysbench.Logging
