import Sysbench.Machinery.MachineInt
import Sysbench.Machinery.Traces

/-!
# Database/ThreadStats — the per-thread counters and the reports that read and reset them

A cumulative report goes over the threads twice: `db_print_stats` first adds up their counters, one
thread at a time, and after printing `db_reset_stats` clears them, one thread at a time.  Between
the two a thread is in the report's *window*: what its worker counts there is cleared without having
been read.  And the sums are printed through `%d`, so what a report says of a sum of 2 ^ 31 or more
is something else.  So a run reports exactly the queries it executed when no worker counts a query
in a window and no sum is too large (`reports_complete_iff`), provided reports do not overlap: the
final report is made by the main thread without the lock the checkpoints thread holds.
-/

namespace Sysbench.Database

/-- `db_query_type_t`. -/
inductive QueryType
  | read
  | write
  | commit
  | other
  deriving DecidableEq, Repr

/-- `strncasecmp(query, text, n)` is 0, `n` being the length of `text`. -/
def beginsWith : (query text : List Char) → Bool
  | _, [] => true
  | [], _ :: _ => false
  | c :: query, d :: text => c.toLower = d && beginsWith query text

/-- `db_get_query_type`. -/
def dbGetQueryType (query : List Char) : QueryType :=
  let query := query.dropWhile (· ∈ [' ', '\t', '\n', '\x0b', '\x0c', '\r'])
  if beginsWith query "select".toList then .read
  else if beginsWith query "insert".toList || beginsWith query "update".toList ||
    beginsWith query "delete".toList then .write
  else if beginsWith query "commit".toList || beginsWith query "unlock tables".toList then .commit
  else .other

/-- The counters of `db_thread_stat_t` that `db_update_thread_stats` keeps.  They are
`unsigned long`. -/
inductive Counter
  | readOps
  | writeOps
  | otherOps
  | transactions
  deriving DecidableEq, Repr

instance : Fintype Counter where
  elems := {.readOps, .writeOps, .otherOps, .transactions}
  complete c := by cases c <;> simp

/-- The value of each counter. -/
abbrev Counts : Type := Counter → ℕ

/-- What a query of each type adds: a commit is also another operation. -/
def QueryType.counts : QueryType → Counts
  | .read, .readOps => 1
  | .write, .writeOps => 1
  | .commit, .otherOps => 1
  | .commit, .transactions => 1
  | .other, .otherOps => 1
  | _, _ => 0

/-- `db_update_thread_stats`, under the lock of the thread's counters. -/
def dbUpdateThreadStats (stats : ℕ → Counts) (id : ℤ) (type : QueryType) : ℕ → Counts :=
  if id < 0 then stats
  else Function.update stats id.toNat (stats id.toNat + type.counts)

/-- Who calls `db_print_stats(SB_STAT_CUMULATIVE)`. -/
inductive Reporter
  | checkpoints
  | main
  deriving DecidableEq, Repr

/-- Where a call of `db_print_stats` is: about to add thread `i` to the sums, or about to reset
thread `i`. -/
inductive ReportPhase
  | idle
  | reading (i : ℕ) (sums : Counts)
  | resetting (i : ℕ)
  | finished

/-- The counters, the two callers, and whether the main thread has joined all workers. -/
structure DbStats where
  stats : ℕ → Counts
  phase : Reporter → ReportPhase
  joined : Bool

/-- After `db_reset_stats` in `db_create`. -/
def startStats : DbStats := ⟨fun _ => 0, fun _ => .idle, false⟩

/-- One atomic step: a worker counts an executed query, a report goes on, or the main thread has
joined the workers. -/
inductive StatMove
  | update (id : ℤ) (type : QueryType)
  | report (r : Reporter)
  | join
  deriving DecidableEq

/-- The phase after a report: the main thread makes one. -/
def Reporter.rest : Reporter → ReportPhase
  | .checkpoints => .idle
  | .main => .finished

/-- A caller moves to phase `p`. -/
def DbStats.setPhase (s : DbStats) (r : Reporter) (p : ReportPhase) : DbStats :=
  { s with phase := Function.update s.phase r p }

/-- The next step of `db_print_stats` over `n` threads.  The main thread starts its report after
joining the workers. -/
def DbStats.report (n : ℕ) (s : DbStats) (r : Reporter) : Option DbStats :=
  match s.phase r with
  | .idle =>
    if r = .main ∧ s.joined = false then none else some (s.setPhase r (.reading 0 0))
  | .reading i sums =>
    if i < n then some (s.setPhase r (.reading (i + 1) (sums + s.stats i)))
    else some (s.setPhase r (.resetting 0))
  | .resetting i =>
    if i < n then
      some ({ s with stats := Function.update s.stats i 0 }.setPhase r (.resetting (i + 1)))
    else some (s.setPhase r r.rest)
  | .finished => none

/-- One step of a run with `n` workers. -/
def statMove (n : ℕ) (s : DbStats) : StatMove → Option DbStats
  | .update id type =>
    if s.joined = false ∧ id < n then
      some { s with stats := dbUpdateThreadStats s.stats id type }
    else none
  | .report r => s.report n r
  | .join => some { s with joined := true }

/-- The counts of the query a step executes. -/
def executed (e : DbStats × StatMove) : Counts :=
  match e.2 with
  | .update id type => if id < 0 then 0 else type.counts
  | _ => 0

/-- The sums a step prints, where it prints a report. -/
def summedCounts (n : ℕ) (e : DbStats × StatMove) : Counts :=
  match e.2 with
  | .report r =>
    match e.1.phase r with
    | .reading i sums => if i < n then 0 else sums
    | _ => 0
  | _ => 0

/-- The counts a step reports.  The sums are `unsigned long`, and `%d` prints them as `int`: whether
they have come round at 2 ^ 64 makes no difference. -/
def reportedCounts (n : ℕ) (e : DbStats × StatMove) : Counter → ℤ :=
  fun c => toI32 (summedCounts n e c)

/-- **A report prints its sums as they are.** -/
def PrintsExactly (n : ℕ) (e : DbStats × StatMove) : Prop := ∀ c, summedCounts n e c < 2 ^ 31

/-! ## The window of a report -/

/-- The other caller. -/
def Reporter.other : Reporter → Reporter
  | .checkpoints => .main
  | .main => .checkpoints

/-- The call is going over the threads. -/
def ReportPhase.active : ReportPhase → Bool
  | .reading _ _ | .resetting _ => true
  | .idle | .finished => false

/-- Thread `i` has been read by the report and not yet reset. -/
def ReportPhase.window (i : ℕ) : ReportPhase → Bool
  | .reading k _ => i < k
  | .resetting k => k ≤ i
  | _ => false

/-- The sums of a report that is not printed yet. -/
def ReportPhase.sums : ReportPhase → Counts
  | .reading _ sums => sums
  | _ => 0

/-- Some report has thread `i` in its window. -/
def DbStats.window (s : DbStats) (i : ℕ) : Bool :=
  (s.phase .checkpoints).window i || (s.phase .main).window i

/-- **A query is counted in the window of a report.** -/
def InWindow (e : DbStats × StatMove) : Prop :=
  match e.2 with
  | .update id _ => 0 ≤ id ∧ e.1.window id.toNat = true
  | _ => False

/-- **Reports do not overlap**: a caller begins one only when the other is not in one. -/
def NoOverlap (e : DbStats × StatMove) : Prop :=
  match e.2 with
  | .report r => (e.1.phase r).active = false → (e.1.phase r.other).active = false
  | _ => True

instance decidableInWindow : ∀ e, Decidable (InWindow e)
  | (s, .update id _) => inferInstanceAs (Decidable (0 ≤ id ∧ s.window id.toNat = true))
  | (_, .report _) => inferInstanceAs (Decidable False)
  | (_, .join) => inferInstanceAs (Decidable False)

instance decidableNoOverlap : ∀ e, Decidable (NoOverlap e)
  | (s, .report r) =>
    inferInstanceAs (Decidable ((s.phase r).active = false → (s.phase r.other).active = false))
  | (_, .update _ _) => inferInstanceAs (Decidable True)
  | (_, .join) => inferInstanceAs (Decidable True)

/-- The counts of a query that is counted in a window. -/
def lost (e : DbStats × StatMove) : Counts :=
  match e.2 with
  | .update id type => if id < 0 then 0 else if e.1.window id.toNat then type.counts else 0
  | _ => 0

theorem QueryType.counts_ne_zero (type : QueryType) : type.counts ≠ 0 := by
  intro h
  cases type with
  | read => exact absurd (congrFun h .readOps) (by decide)
  | write => exact absurd (congrFun h .writeOps) (by decide)
  | commit => exact absurd (congrFun h .otherOps) (by decide)
  | other => exact absurd (congrFun h .otherOps) (by decide)

/-- A step loses nothing unless it is an update in a window. -/
theorem lost_eq_zero_iff (e : DbStats × StatMove) : lost e = 0 ↔ ¬ InWindow e := by
  obtain ⟨s, i⟩ := e
  cases i with
  | update id type =>
    rw [InWindow, lost]
    dsimp only
    split_ifs with hneg hwin
    · simp [hneg]
    · simp [type.counts_ne_zero, not_lt.mp hneg, hwin]
    · simp [hwin]
  | report r => simp [InWindow, lost]
  | join => simp [InWindow, lost]

/-! ## What a state still has to report -/

/-- Over the threads outside the window, the counts a caller in phase `p` will still report. -/
def ReportPhase.owed (n : ℕ) (p : ReportPhase) (stats : ℕ → Counts) : Counts :=
  p.sums + ∑ i ∈ Finset.range n, if p.window i then 0 else stats i

/-- The counts not yet reported: in sums that are not printed, or in the counters of threads that
are in no window. -/
def kept (n : ℕ) (s : DbStats) : Counts :=
  (s.phase .checkpoints).sums + (s.phase .main).sums +
    ∑ i ∈ Finset.range n, if s.window i then 0 else s.stats i

section Owed

variable {n k : ℕ} {sums : Counts} {stats : ℕ → Counts}

theorem owed_start : ReportPhase.owed n (.reading 0 0) stats = ReportPhase.owed n .idle stats := by
  simp [ReportPhase.owed, ReportPhase.sums, ReportPhase.window]

/-- Reading a thread moves its counts into the sums. -/
theorem owed_read (hk : k < n) :
    ReportPhase.owed n (.reading (k + 1) (sums + stats k)) stats
      = ReportPhase.owed n (.reading k sums) stats := by
  have h := sum_add_eq_of_ne (f := fun i => if i < k + 1 then 0 else stats i)
    (g := fun i => if i < k then 0 else stats i) (Finset.mem_range.mpr hk) fun i hi => by
      have : i < k + 1 ↔ i < k := by omega
      simp [this]
  simp only [lt_add_iff_pos_right, zero_lt_one, if_true, lt_irrefl, if_false, add_zero] at h
  simp only [ReportPhase.owed, ReportPhase.sums, ReportPhase.window, decide_eq_true_eq]
  rw [← h]
  abel

/-- Printing reports the sums, and leaves nothing of this report to come. -/
theorem owed_print (hk : ¬ k < n) :
    ReportPhase.owed n (.reading k sums) stats
      = ReportPhase.owed n (.resetting 0) stats + sums := by
  have hzero : ∑ i ∈ Finset.range n, (if i < k then 0 else stats i) = 0 :=
    Finset.sum_eq_zero fun i hi => if_pos (by have := Finset.mem_range.mp hi; omega)
  simp [ReportPhase.owed, ReportPhase.sums, ReportPhase.window, hzero]

/-- Resetting a thread that was read. -/
theorem owed_reset :
    ReportPhase.owed n (.resetting (k + 1)) (Function.update stats k 0)
      = ReportPhase.owed n (.resetting k) stats := by
  simp only [ReportPhase.owed, ReportPhase.sums, ReportPhase.window, decide_eq_true_eq]
  congr 1
  refine Finset.sum_congr rfl fun i _ => ?_
  rcases lt_trichotomy i k with hlt | rfl | hgt
  · rw [if_neg (by omega), if_neg (by omega), Function.update_of_ne hlt.ne]
  · rw [if_neg (by omega), if_pos le_rfl, Function.update_self]
  · rw [if_pos (by omega), if_pos hgt.le]

theorem owed_rest (r : Reporter) (hk : ¬ k < n) :
    ReportPhase.owed n r.rest stats = ReportPhase.owed n (.resetting k) stats := by
  have hsum : ∑ i ∈ Finset.range n, (if k ≤ i then 0 else stats i)
      = ∑ i ∈ Finset.range n, stats i :=
    Finset.sum_congr rfl fun i hi => if_neg (by have := Finset.mem_range.mp hi; omega)
  cases r <;> simp [ReportPhase.owed, ReportPhase.sums, ReportPhase.window, Reporter.rest, hsum]

end Owed

/-- While one caller is not in a report, the state owes what the other owes. -/
theorem kept_eq_owed {n : ℕ} {s : DbStats} {r : Reporter}
    (h : (s.phase r.other).active = false) : kept n s = ReportPhase.owed n (s.phase r) s.stats := by
  have hsums : (s.phase r.other).sums = 0 := by
    cases hp : s.phase r.other <;> rw [hp] at h <;> first | rfl | cases h
  have hwin : ∀ i, (s.phase r.other).window i = false := by
    intro i
    cases hp : s.phase r.other <;> rw [hp] at h <;> first | rfl | cases h
  cases r <;> simp_all [kept, ReportPhase.owed, DbStats.window, Reporter.other]

/-! ## One step -/

variable {n : ℕ} {s s' : DbStats} {r : Reporter}

@[simp] theorem setPhase_self (p : ReportPhase) : (s.setPhase r p).phase r = p :=
  Function.update_self ..

@[simp] theorem setPhase_other (p : ReportPhase) :
    (s.setPhase r p).phase r.other = s.phase r.other := by
  have hne : r.other ≠ r := by cases r <;> decide
  exact Function.update_of_ne hne _ _

@[simp] theorem setPhase_stats (p : ReportPhase) : (s.setPhase r p).stats = s.stats := rfl

@[simp] theorem setPhase_joined (p : ReportPhase) : (s.setPhase r p).joined = s.joined := rfl

/-- **The steps of a report**, with the phase they start from. -/
theorem report_cases (h : s.report n r = some s') :
    (s.phase r = .idle ∧ (r = .main → s.joined = true) ∧ s' = s.setPhase r (.reading 0 0)) ∨
    (∃ k sums, s.phase r = .reading k sums ∧ k < n ∧
      s' = s.setPhase r (.reading (k + 1) (sums + s.stats k))) ∨
    (∃ k sums, s.phase r = .reading k sums ∧ ¬ k < n ∧ s' = s.setPhase r (.resetting 0)) ∨
    (∃ k, s.phase r = .resetting k ∧ k < n ∧
      s' = { s with stats := Function.update s.stats k 0 }.setPhase r (.resetting (k + 1))) ∨
    (∃ k, s.phase r = .resetting k ∧ ¬ k < n ∧ s' = s.setPhase r r.rest) := by
  unfold DbStats.report at h
  split at h
  next hp =>
    split_ifs at h with hj
    refine Or.inl ⟨hp, fun hr => ?_, (Option.some.inj h).symm⟩
    simpa using fun hf => hj ⟨hr, hf⟩
  next k sums hp =>
    split_ifs at h with hk
    · exact Or.inr (Or.inl ⟨k, sums, hp, hk, (Option.some.inj h).symm⟩)
    · exact Or.inr (Or.inr (Or.inl ⟨k, sums, hp, hk, (Option.some.inj h).symm⟩))
  next k hp =>
    split_ifs at h with hk
    · exact Or.inr (Or.inr (Or.inr (Or.inl ⟨k, hp, hk, (Option.some.inj h).symm⟩)))
    · exact Or.inr (Or.inr (Or.inr (Or.inr ⟨k, hp, hk, (Option.some.inj h).symm⟩)))
  next => cases h

/-- A step of a report leaves the other caller where it is. -/
theorem report_other (h : s.report n r = some s') : s'.phase r.other = s.phase r.other := by
  obtain ⟨-, -, rfl⟩ | ⟨k, sums, -, -, rfl⟩ | ⟨k, sums, -, -, rfl⟩ | ⟨k, -, -, rfl⟩ |
    ⟨k, -, -, rfl⟩ := report_cases h <;> exact setPhase_other _

theorem report_joined (h : s.report n r = some s') : s'.joined = s.joined := by
  obtain ⟨-, -, rfl⟩ | ⟨k, sums, -, -, rfl⟩ | ⟨k, sums, -, -, rfl⟩ | ⟨k, -, -, rfl⟩ |
    ⟨k, -, -, rfl⟩ := report_cases h <;> rfl

/-- **Reports are made one at a time, the last one after the workers.** -/
structure Serial (n : ℕ) (s : DbStats) : Prop where
  alone : ∀ r, (s.phase r).active = true → (s.phase r.other).active = false
  joined : s.phase .main ≠ .idle → s.joined = true
  resetting : ∀ k, s.phase .main = .resetting k → ∀ i < k, s.stats i = 0
  finished : s.phase .main = .finished →
    (∀ i < n, s.stats i = 0) ∧ (s.phase .checkpoints).sums = 0

theorem serial_startStats : Serial n startStats where
  alone r h := by cases h
  joined h := absurd rfl h
  resetting k h := by cases h
  finished h := by cases h

/-- A caller that takes a step has the threads for itself. -/
theorem Serial.other_inactive (hI : Serial n s) (hover : NoOverlap (s, .report r)) :
    (s.phase r.other).active = false := by
  cases hact : (s.phase r).active with
  | true => exact hI.alone r hact
  | false => exact hover hact

/-- **A step of a report** moves what is owed into what is reported. -/
theorem kept_report (hI : Serial n s) (hover : NoOverlap (s, .report r))
    (h : s.report n r = some s') :
    kept n s = kept n s' + summedCounts n (s, .report r) := by
  have hother := hI.other_inactive hover
  rw [kept_eq_owed hother, kept_eq_owed (report_other h ▸ hother), summedCounts]
  obtain ⟨hp, -, rfl⟩ | ⟨k, sums, hp, hk, rfl⟩ | ⟨k, sums, hp, hk, rfl⟩ | ⟨k, hp, hk, rfl⟩ |
    ⟨k, hp, hk, rfl⟩ := report_cases h
  all_goals simp only [hp, setPhase_self, setPhase_stats, add_zero]
  · exact owed_start.symm
  · rw [if_pos hk, add_zero, owed_read hk]
  · rw [if_neg hk]
    exact owed_print hk
  · exact owed_reset.symm
  · exact (owed_rest r hk).symm

/-- **A counted query** is owed from then on, unless it is counted in a window. -/
theorem kept_update {id : ℤ} {type : QueryType} (hid : id < n) :
    kept n s + executed (s, .update id type)
      = kept n { s with stats := dbUpdateThreadStats s.stats id type }
        + lost (s, .update id type) := by
  simp only [executed, lost, dbUpdateThreadStats]
  split_ifs with hneg hwin
  · rfl
  · -- the counters of a thread in the window are owed by nobody
    congr 1
    unfold kept
    congr 1
    refine Finset.sum_congr rfl fun i _ => ?_
    change (if s.window i then 0 else s.stats i)
      = if s.window i then 0
        else Function.update s.stats id.toNat (s.stats id.toNat + type.counts) i
    rcases eq_or_ne i id.toNat with rfl | hne
    · rw [if_pos hwin, if_pos hwin]
    · rw [Function.update_of_ne hne]
  · have h := sum_add_eq_of_ne (t := Finset.range n) (i := id.toNat)
      (f := fun i => if s.window i then 0
        else Function.update s.stats id.toNat (s.stats id.toNat + type.counts) i)
      (g := fun i => if s.window i then 0 else s.stats i) (Finset.mem_range.mpr (by omega))
      fun i hi => by simp only [Function.update_of_ne hi]
    simp only [hwin, Bool.false_eq_true, if_false, Function.update_self] at h
    have hcancel : ∀ a b c d : Counts, a + c = b + (c + d) → a = b + d := by
      intro a b c d heq
      funext q
      have := congrFun heq q
      simp only [Pi.add_apply] at this ⊢
      omega
    rw [add_zero]
    unfold kept
    rw [add_assoc]
    congr 1
    exact (hcancel _ _ _ _ h).symm

theorem alone_report (hI : Serial n s) (hover : NoOverlap (s, .report r))
    (h : s.report n r = some s') :
    ∀ q, (s'.phase q).active = true → (s'.phase q.other).active = false := by
  have hother : (s'.phase r.other).active = false := report_other h ▸ hI.other_inactive hover
  intro q hq
  rcases eq_or_ne q r with rfl | hne
  · exact hother
  · have heq : q = r.other := by cases q <;> cases r <;> first | rfl | exact absurd rfl hne
    rw [heq, hother] at hq
    cases hq

/-- **A step of a checkpoint report**: after the final report it finds nothing. -/
theorem serial_checkpoints (hI : Serial n s) (hover : NoOverlap (s, .report .checkpoints))
    (h : s.report n .checkpoints = some s') : Serial n s' := by
  have hmain : s'.phase .main = s.phase .main := report_other h
  have hidle : (s.phase .main).active = false := hI.other_inactive hover
  refine ⟨alone_report hI hover h, fun hne => ?_, fun k hk => ?_, fun hfin => ?_⟩
  · rw [report_joined h]
    exact hI.joined (hmain ▸ hne)
  · rw [← hmain, hk] at hidle
    cases hidle
  · obtain ⟨hzero, hsums⟩ := hI.finished (hmain ▸ hfin)
    obtain ⟨-, -, rfl⟩ | ⟨k, sums, hp, hk, rfl⟩ | ⟨k, sums, -, -, rfl⟩ | ⟨k, -, -, rfl⟩ |
      ⟨k, -, -, rfl⟩ := report_cases h
    · exact ⟨hzero, by rw [setPhase_self]; rfl⟩
    · rw [hp] at hsums
      change sums = 0 at hsums
      refine ⟨hzero, ?_⟩
      rw [setPhase_self, hsums, hzero k hk]
      rfl
    · exact ⟨hzero, by rw [setPhase_self]; rfl⟩
    · refine ⟨fun i hi => ?_, by rw [setPhase_self]; rfl⟩
      change Function.update s.stats k 0 i = 0
      rcases eq_or_ne i k with rfl | hne
      · exact Function.update_self ..
      · rw [Function.update_of_ne hne]
        exact hzero i hi
    · exact ⟨hzero, by rw [setPhase_self]; rfl⟩

/-- **A step of the final report**: no worker is left to count what it has reset. -/
theorem serial_main (hI : Serial n s) (hover : NoOverlap (s, .report .main))
    (h : s.report n .main = some s') : Serial n s' := by
  have hck : s'.phase .checkpoints = s.phase .checkpoints := report_other h
  have hidle : (s.phase .checkpoints).active = false := hI.other_inactive hover
  refine ⟨alone_report hI hover h, fun _ => ?_, fun k hk => ?_, fun hfin => ?_⟩
  · rw [report_joined h]
    obtain ⟨-, hj, -⟩ | ⟨k, sums, hp, -⟩ | ⟨k, sums, hp, -⟩ | ⟨k, hp, -⟩ | ⟨k, hp, -⟩ :=
      report_cases h
    · exact hj rfl
    all_goals exact hI.joined (by simp [hp])
  · obtain ⟨-, -, rfl⟩ | ⟨j, sums, -, -, rfl⟩ | ⟨j, sums, -, -, rfl⟩ | ⟨j, hp, hj, rfl⟩ |
      ⟨j, -, -, rfl⟩ := report_cases h
    all_goals rw [setPhase_self] at hk
    · cases hk
    · cases hk
    · obtain rfl := ReportPhase.resetting.inj hk
      exact fun i hi => absurd hi (Nat.not_lt_zero i)
    · obtain rfl := ReportPhase.resetting.inj hk
      intro i hi
      change Function.update s.stats j 0 i = 0
      rcases eq_or_ne i j with rfl | hne
      · exact Function.update_self ..
      · rw [Function.update_of_ne hne]
        exact hI.resetting j hp i (by omega)
    · cases hk
  · refine ⟨?_, ?_⟩
    · obtain ⟨-, -, rfl⟩ | ⟨j, sums, -, -, rfl⟩ | ⟨j, sums, -, -, rfl⟩ | ⟨j, -, -, rfl⟩ |
        ⟨j, hp, hj, rfl⟩ := report_cases h
      all_goals rw [setPhase_self] at hfin
      · cases hfin
      · cases hfin
      · cases hfin
      · cases hfin
      · exact fun i hi => hI.resetting j hp i (by omega)
    · rw [hck]
      cases hp : s.phase .checkpoints <;> rw [hp] at hidle <;> first | rfl | cases hidle

/-! ## A whole run -/

/-- **One step**: what is counted is owed, reported or lost. -/
theorem statMove_balance {i : StatMove} (hI : Serial n s) (hover : NoOverlap (s, i))
    (h : statMove n s i = some s') :
    Serial n s' ∧
      kept n s + executed (s, i) = kept n s' + (summedCounts n (s, i) + lost (s, i)) := by
  cases i with
  | update id type =>
    simp only [statMove] at h
    split_ifs at h with hok
    obtain rfl := Option.some.inj h
    have hidle : s.phase .main = .idle := by
      by_contra hne
      exact absurd (hI.joined hne) (by simp [hok.1])
    refine ⟨⟨hI.alone, fun hne => absurd hidle hne, fun k hk => ?_, fun hfin => ?_⟩, ?_⟩
    · exact absurd (hidle.symm.trans hk) (by simp)
    · exact absurd (hidle.symm.trans hfin) (by simp)
    · rw [kept_update hok.2]
      simp [summedCounts]
  | report r =>
    refine ⟨?_, ?_⟩
    · cases r with
      | checkpoints => exact serial_checkpoints hI hover h
      | main => exact serial_main hI hover h
    · rw [kept_report hI hover h]
      simp [executed, lost]
  | join =>
    obtain rfl := Option.some.inj h
    refine ⟨⟨hI.alone, fun _ => rfl, hI.resetting, hI.finished⟩, ?_⟩
    simp [executed, summedCounts, lost, kept, DbStats.window]

/-- After the final report nothing is owed. -/
theorem Serial.kept_eq_zero (hI : Serial n s) (hend : s.phase .main = .finished) :
    kept n s = 0 := by
  obtain ⟨hzero, hsums⟩ := hI.finished hend
  have hterms : ∑ i ∈ Finset.range n, (if s.window i then 0 else s.stats i) = 0 := by
    refine Finset.sum_eq_zero fun i hi => ?_
    rw [hzero i (Finset.mem_range.mp hi), ite_self]
  rw [kept, hsums, hend, hterms]
  rfl

/-- Counts as numbers to be printed. -/
def castCounts : Counts →+ (Counter → ℤ) := (Nat.castAddMonoidHom ℤ).compLeft Counter

@[simp] theorem castCounts_apply (x : Counts) (c : Counter) : castCounts x c = x c := rfl

theorem castCounts_inj {x y : Counts} : castCounts x = castCounts y ↔ x = y := by
  refine ⟨fun h => funext fun c => ?_, congrArg _⟩
  exact Nat.cast_injective (congrFun h c)

/-- What a step prints too little of its sums. -/
def unprinted (n : ℕ) (e : DbStats × StatMove) : Counts :=
  fun c => ((summedCounts n e c : ℤ) - reportedCounts n e c).toNat

/-- An `int` is never more than the number it is cut from. -/
theorem toI32_natCast_le (x : ℕ) : toI32 x ≤ x := by
  unfold toI32
  omega

/-- A sum is what is printed of it and what is not. -/
theorem castCounts_summed (n : ℕ) (e : DbStats × StatMove) :
    castCounts (summedCounts n e) = reportedCounts n e + castCounts (unprinted n e) := by
  funext c
  have hle : reportedCounts n e c ≤ summedCounts n e c := toI32_natCast_le _
  rw [Pi.add_apply, castCounts_apply, castCounts_apply, unprinted, Int.toNat_of_nonneg (by omega)]
  ring

theorem unprinted_eq_zero_iff (n : ℕ) (e : DbStats × StatMove) :
    unprinted n e = 0 ↔ PrintsExactly n e := by
  rw [funext_iff, PrintsExactly]
  refine forall_congr' fun c => ?_
  simp only [unprinted, reportedCounts, toI32, Pi.zero_apply]
  omega

/-- **The reports of a run add up to the queries executed exactly when no query is counted in the
window of a report and no report prints a sum of 2 ^ 31 or more**, in every run whose reports do not
overlap. -/
theorem reports_complete_iff (n : ℕ) {hist : List (DbStats × StatMove)} {s : DbStats}
    (h : Run (statMove n) startStats hist s) (hover : ∀ e ∈ hist, NoOverlap e)
    (hend : s.phase .main = .finished) :
    (hist.map (reportedCounts n)).sum = castCounts (hist.map executed).sum ↔
      (∀ e ∈ hist, ¬ InWindow e) ∧ ∀ e ∈ hist, PrintsExactly n e := by
  have hI : Serial n s := h.invariant (Serial n) NoOverlap serial_startStats
    (fun s i s' hI hok hs => (statMove_balance hI hok hs).1) hover
  have hsum := h.balance (kept n) executed (fun e => summedCounts n e + lost e) (Serial n)
    NoOverlap serial_startStats (fun s i s' hI hok hs => statMove_balance hI hok hs) hover
  have hstart : kept n startStats = 0 := by
    simp [kept, startStats, ReportPhase.sums, DbStats.window, ReportPhase.window]
  rw [hstart, hI.kept_eq_zero hend, zero_add, zero_add, List.sum_map_add] at hsum
  have hprinted : castCounts (hist.map (summedCounts n)).sum
      = (hist.map (reportedCounts n)).sum + castCounts (hist.map (unprinted n)).sum := by
    rw [map_list_sum, map_list_sum, List.map_map, List.map_map, ← List.sum_map_add]
    exact congrArg List.sum (List.map_congr_left fun e _ => castCounts_summed n e)
  -- what is executed is reported, or not printed, or lost
  rw [hsum, map_add, hprinted, add_assoc, left_eq_add, ← map_add, ← map_zero castCounts,
    castCounts_inj, add_eq_zero, List.sum_eq_zero_iff, List.sum_eq_zero_iff, and_comm]
  simp only [List.forall_mem_map, lost_eq_zero_iff, unprinted_eq_zero_iff]

/-- All steps of one report over one thread. -/
def wholeReport (r : Reporter) : List StatMove := List.replicate 5 (.report r)

/-- Two reports with a query before each of them. -/
def queryBeforeReport : List StatMove :=
  .update 0 .read :: List.append (wholeReport .checkpoints)
    (.update 0 .commit :: .join :: wholeReport .main)

theorem reports_complete_twoQueries :
    ∃ hist s, Run (statMove 1) startStats hist s ∧ s.phase .main = .finished ∧
      hist.map Prod.snd = queryBeforeReport ∧
      (hist.map (reportedCounts 1)).sum = castCounts (hist.map executed).sum := by
  have h : Run.play (statMove 1) startStats queryBeforeReport = some (_, _) := rfl
  have hrun := Run.of_play h
  refine ⟨_, _, hrun, rfl, rfl, (reports_complete_iff 1 hrun (by decide) rfl).mpr ⟨by decide, ?_⟩⟩
  unfold PrintsExactly
  decide

/-- A checkpoint report whose window holds a query, and the final report. -/
def queryInWindow : List StatMove :=
  .report .checkpoints :: .report .checkpoints :: .update 0 .read :: .report .checkpoints ::
    .report .checkpoints :: .report .checkpoints :: .join :: wholeReport .main

/-- **A query counted while a checkpoint report is printed** is in no report. -/
theorem reports_lose_query :
    ∃ hist s, Run (statMove 1) startStats hist s ∧ s.phase .main = .finished ∧
      (hist.map (reportedCounts 1)).sum .readOps = 0 ∧ (hist.map executed).sum .readOps = 1 := by
  have h : Run.play (statMove 1) startStats queryInWindow = some (_, _) := rfl
  exact ⟨_, _, Run.of_play h, rfl, by decide, rfl⟩

end Sysbench.Database
