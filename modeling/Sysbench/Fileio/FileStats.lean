import Sysbench.Machinery.MachineInt
import Sysbench.Machinery.Traces

/-!
# Fileio/FileStats — the counters of the file I/O test and the reports made from them

Completed operations are counted under `exec_mutex`, whatever thread completes them and whichever
of the three code paths counts them.  An intermediate report reads three of the counters and
remembers them, a cumulative report at a checkpoint reads all and clears all, with the lock taken by
its caller.  Every counted operation is in the counters or in one cumulative report, and the
remembered values never exceed the counters (`stats_accounted`), as long as the counters hold what
is counted: three of them are `int`, and 2147483648 fsyncs make `other_ops` negative
(`otherOps_wraps`).
-/

namespace Sysbench.Fileio

/-- The statistics of `sb_fileio.c`: the operation counters are `int`, the byte counters
`unsigned long long`. -/
structure FileStats where
  readOps : ℤ
  writeOps : ℤ
  otherOps : ℤ
  lastOtherOps : ℤ
  bytesRead : ℕ
  lastBytesRead : ℕ
  bytesWritten : ℕ
  lastBytesWritten : ℕ

/-- `clear_stats`. -/
def clearStats : FileStats := ⟨0, 0, 0, 0, 0, 0, 0, 0⟩

/-- What happens to the counters, each in one critical section of `exec_mutex`: an operation
completes, or a report is made. -/
inductive StatEvent
  | read (size : ℤ)
  | write (size : ℤ)
  | fsync
  | intermediate
  | checkpoint
  deriving DecidableEq

/-- The three updates, of `file_execute_request` and of `file_wait`, and the two reports of
`file_print_stats`. -/
def fileStats (s : FileStats) : StatEvent → Option FileStats
  | .read size =>
    some { s with
      readOps := toI32 (s.readOps + 1)
      bytesRead := toU64 (s.bytesRead + size) }
  | .write size =>
    some { s with
      writeOps := toI32 (s.writeOps + 1)
      bytesWritten := toU64 (s.bytesWritten + size) }
  | .fsync => some { s with otherOps := toI32 (s.otherOps + 1) }
  | .intermediate =>
    some { s with
      lastBytesRead := s.bytesRead
      lastBytesWritten := s.bytesWritten
      lastOtherOps := s.otherOps }
  | .checkpoint => some clearStats

/-- The differences an intermediate report divides by the seconds: `diff_read`, `diff_written`,
`diff_other_ops`, all `unsigned long long`. -/
def diffs (s : FileStats) : ℕ × ℕ × ℕ :=
  (toU64 ((s.bytesRead : ℤ) - s.lastBytesRead), toU64 ((s.bytesWritten : ℤ) - s.lastBytesWritten),
    toU64 (toI32 (s.otherOps - s.lastOtherOps)))

/-- Reads, writes, other operations, bytes read and bytes written. -/
abbrev Tally : Type := ℤ × ℤ × ℤ × ℤ × ℤ

/-- What a cumulative report prints of a state. -/
def tally (s : FileStats) : Tally :=
  (s.readOps, s.writeOps, s.otherOps, s.bytesRead, s.bytesWritten)

/-- What an event counts. -/
def counted (e : FileStats × StatEvent) : Tally :=
  match e.2 with
  | .read size => (1, 0, 0, size, 0)
  | .write size => (0, 1, 0, 0, size)
  | .fsync => (0, 0, 1, 0, 0)
  | .intermediate | .checkpoint => 0

/-- What an event reports. -/
def reported (e : FileStats × StatEvent) : Tally :=
  if e.2 = .checkpoint then tally e.1 else 0

/-- **The counters hold what is counted**: the operation counter stays an `int`, the byte counter an
`unsigned long long`, and the size counted is that of a transfer. -/
def Fits (e : FileStats × StatEvent) : Prop :=
  match e.2 with
  | .read size => e.1.readOps + 1 < 2 ^ 31 ∧ 0 ≤ size ∧ e.1.bytesRead + size < 2 ^ 64
  | .write size => e.1.writeOps + 1 < 2 ^ 31 ∧ 0 ≤ size ∧ e.1.bytesWritten + size < 2 ^ 64
  | .fsync => e.1.otherOps + 1 < 2 ^ 31
  | .intermediate | .checkpoint => True

/-- **The counters are in range, and the remembered values behind them.** -/
structure InStep (s : FileStats) : Prop where
  readOps : 0 ≤ s.readOps ∧ s.readOps < 2 ^ 31
  writeOps : 0 ≤ s.writeOps ∧ s.writeOps < 2 ^ 31
  otherOps : s.lastOtherOps ≤ s.otherOps ∧ s.otherOps < 2 ^ 31
  lastOtherOps : 0 ≤ s.lastOtherOps
  bytesRead : s.lastBytesRead ≤ s.bytesRead ∧ s.bytesRead < 2 ^ 64
  bytesWritten : s.lastBytesWritten ≤ s.bytesWritten ∧ s.bytesWritten < 2 ^ 64

theorem inStep_clearStats : InStep clearStats := by
  constructor <;> simp [clearStats]

/-- Counting a transfer that fits adds its size. -/
theorem toU64_add {b : ℕ} {size : ℤ} (h : 0 ≤ size) (hfit : b + size < 2 ^ 64) :
    (toU64 (b + size) : ℤ) = b + size := by
  unfold toU64
  omega

theorem toI32_succ {n : ℤ} (h : 0 ≤ n) (hfit : n + 1 < 2 ^ 31) : toI32 (n + 1) = n + 1 :=
  toI32_of_lt (by omega) hfit

/-- **One event that fits**: what it counts is added to the counters, what it reports is taken out
of them. -/
theorem fileStats_inStep {s s' : FileStats} {i : StatEvent} (hI : InStep s) (hfit : Fits (s, i))
    (h : fileStats s i = some s') :
    InStep s' ∧ tally s + counted (s, i) = tally s' + reported (s, i) := by
  cases i with
  | read size =>
    obtain rfl := Option.some.inj h
    have hfit : s.readOps + 1 < 2 ^ 31 ∧ 0 ≤ size ∧ s.bytesRead + size < 2 ^ 64 := hfit
    have hops := toI32_succ hI.readOps.1 hfit.1
    have hbytes := toU64_add hfit.2.1 hfit.2.2
    refine ⟨{ hI with
      readOps := by have := hI.readOps; dsimp only; omega
      bytesRead := by have := hI.bytesRead; dsimp only; omega }, ?_⟩
    simp [tally, counted, reported, hops, hbytes]
  | write size =>
    obtain rfl := Option.some.inj h
    have hfit : s.writeOps + 1 < 2 ^ 31 ∧ 0 ≤ size ∧ s.bytesWritten + size < 2 ^ 64 := hfit
    have hops := toI32_succ hI.writeOps.1 hfit.1
    have hbytes := toU64_add hfit.2.1 hfit.2.2
    refine ⟨{ hI with
      writeOps := by have := hI.writeOps; dsimp only; omega
      bytesWritten := by have := hI.bytesWritten; dsimp only; omega }, ?_⟩
    simp [tally, counted, reported, hops, hbytes]
  | fsync =>
    obtain rfl := Option.some.inj h
    have hfit : s.otherOps + 1 < 2 ^ 31 := hfit
    have hops := toI32_succ (hI.lastOtherOps.trans hI.otherOps.1) hfit
    refine ⟨{ hI with otherOps := by have := hI.otherOps; dsimp only; omega }, ?_⟩
    simp [tally, counted, reported, hops]
  | intermediate =>
    obtain rfl := Option.some.inj h
    refine ⟨{ hI with
      otherOps := ⟨le_rfl, hI.otherOps.2⟩
      lastOtherOps := hI.lastOtherOps.trans hI.otherOps.1
      bytesRead := ⟨le_rfl, hI.bytesRead.2⟩
      bytesWritten := ⟨le_rfl, hI.bytesWritten.2⟩ }, ?_⟩
    simp [tally, counted, reported]
  | checkpoint =>
    obtain rfl := Option.some.inj h
    refine ⟨inStep_clearStats, ?_⟩
    simp [tally, counted, reported, clearStats]

/-- No difference of an intermediate report underflows. -/
theorem InStep.diffs_eq {s : FileStats} (hI : InStep s) :
    ((diffs s).1 : ℤ) = s.bytesRead - s.lastBytesRead ∧
      ((diffs s).2.1 : ℤ) = s.bytesWritten - s.lastBytesWritten ∧
      ((diffs s).2.2 : ℤ) = s.otherOps - s.lastOtherOps := by
  have hr := hI.bytesRead
  have hw := hI.bytesWritten
  have ho := hI.otherOps
  have hl := hI.lastOtherOps
  rw [diffs, toI32_of_lt (by omega) (by omega)]
  unfold toU64
  dsimp only
  omega

/-- **Every counted operation is in one cumulative report or still in the counters, and no
intermediate report computes a rate from an underflowed difference**, in every run whose counts
fit. -/
theorem stats_accounted {hist : List (FileStats × StatEvent)} {s : FileStats}
    (h : Run fileStats clearStats hist s) (hfit : ∀ e ∈ hist, Fits e) :
    (hist.map counted).sum = tally s + (hist.map reported).sum ∧
      s.lastBytesRead ≤ s.bytesRead ∧ s.lastBytesWritten ≤ s.bytesWritten ∧
      s.lastOtherOps ≤ s.otherOps ∧
      ((diffs s).1 : ℤ) = s.bytesRead - s.lastBytesRead ∧
      ((diffs s).2.1 : ℤ) = s.bytesWritten - s.lastBytesWritten ∧
      ((diffs s).2.2 : ℤ) = s.otherOps - s.lastOtherOps := by
  have hI : InStep s := h.invariant InStep Fits inStep_clearStats
    (fun s i s' hI hok hs => (fileStats_inStep hI hok hs).1) hfit
  have hsum := h.balance tally counted reported InStep Fits inStep_clearStats
    (fun s i s' hI hok hs => fileStats_inStep hI hok hs) hfit
  refine ⟨?_, hI.bytesRead.1, hI.bytesWritten.1, hI.otherOps.1, hI.diffs_eq⟩
  rw [← hsum]
  simp [tally, clearStats]

/-- A read, an intermediate report, a write, a checkpoint report and an fsync. -/
theorem stats_accounted_fiveEvents :
    ∃ hist s, Run fileStats clearStats hist s ∧
      hist.map Prod.snd = [.read 16, .intermediate, .write 16, .checkpoint, .fsync] ∧
      (hist.map counted).sum = tally s + (hist.map reported).sum := by
  have h : Run.play fileStats clearStats
      [.read 16, .intermediate, .write 16, .checkpoint, .fsync] = some (_, _) := rfl
  have hrun := Run.of_play h
  refine ⟨_, _, hrun, rfl, (stats_accounted hrun ?_).1⟩
  simp [Fits, clearStats, toU64, toI32]

/-- Fsyncs alone, as many as `other_ops` can count. -/
theorem exists_run_fsyncs (n : ℕ) (hn : n < 2 ^ 31) :
    ∃ hist, Run fileStats clearStats hist ⟨0, 0, n, 0, 0, 0, 0, 0⟩ ∧
      (hist.map counted).sum = (0, 0, (n : ℤ), 0, 0) ∧ (hist.map reported).sum = 0 := by
  induction n with
  | zero => exact ⟨[], .nil, rfl, rfl⟩
  | succ n ih =>
    obtain ⟨hist, hrun, hcount, hrep⟩ := ih (by omega)
    have hmove : fileStats ⟨0, 0, n, 0, 0, 0, 0, 0⟩ .fsync
        = some ⟨0, 0, (n + 1 : ℕ), 0, 0, 0, 0, 0⟩ := by
      simp only [fileStats, toI32_succ (Int.natCast_nonneg n) (by omega)]
      norm_cast
    refine ⟨_, Run.snoc hrun hmove, ?_, ?_⟩
    · simp [hcount, counted]
    · simp [hrep, reported]

/-- **One fsync too many**: after 2147483647 fsyncs and an intermediate report the next fsync makes
`other_ops` negative, below `last_other_ops`, and what the counters hold is not what was counted. -/
theorem otherOps_wraps :
    ∃ hist s, Run fileStats clearStats hist s ∧ s.otherOps = -2 ^ 31 ∧
      s.otherOps < s.lastOtherOps ∧
      (hist.map counted).sum ≠ tally s + (hist.map reported).sum := by
  obtain ⟨hist, hrun, hcount, hrep⟩ := exists_run_fsyncs (2 ^ 31 - 1) (by norm_num)
  have hreport := Run.snoc (i := .intermediate) hrun rfl
  have hfsync := Run.snoc (i := .fsync) hreport rfl
  have hother : toI32 (((2 ^ 31 - 1 : ℕ) : ℤ) + 1) = -2 ^ 31 := by decide
  refine ⟨_, _, hfsync, hother, ?_, fun hsum => ?_⟩
  · change toI32 (((2 ^ 31 - 1 : ℕ) : ℤ) + 1) < ((2 ^ 31 - 1 : ℕ) : ℤ)
    rw [hother]
    norm_num
  · -- 2147483648 fsyncs are counted, and none of them reported
    rw [List.map_append, List.map_append, List.sum_append, List.sum_append, hcount, List.map_append,
      List.map_append, List.sum_append, List.sum_append, hrep] at hsum
    have h : ((2 ^ 31 - 1 : ℕ) : ℤ) + 0 + 1 = toI32 (((2 ^ 31 - 1 : ℕ) : ℤ) + 1) + (0 + 0 + 0) :=
      congrArg (fun q : Tally => q.2.2.1) hsum
    rw [hother] at h
    norm_num at h

end Sysbench.Fileio
