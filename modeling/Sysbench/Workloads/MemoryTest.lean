import Sysbench.Machinery.MachineInt
import Sysbench.Machinery.Traces
import Mathlib.Algebra.Order.Floor.Div

/-!
# Workloads/MemoryTest — how much memory the memory test transfers

Workers take blocks until `total_bytes` has reached `--memory-total-size`.  The same variable is
what a checkpoint report clears and what an intermediate report compares with the value it saw last,
so a report made in the middle of the test starts the transfer over and leaves `last_bytes` ahead.

A run hands out as many blocks as the total size takes, with `last_bytes` never ahead of
`total_bytes`, exactly when every checkpoint report finds nothing to clear, or comes after the last
worker has finished and after no intermediate report that saw a block, and the blocks fit a
`long long` (`reports_observe_iff`).
-/

namespace Sysbench.Workloads

/-- `memory_scope`. -/
inductive MemoryScope
  | global
  | local
  deriving DecidableEq, Repr

/-- `memory_oper`. -/
inductive MemoryOper
  | none
  | read
  | write
  deriving DecidableEq, Repr

/-- `sb_stat_t`. -/
inductive StatType
  | intermediate
  | cumulative
  deriving DecidableEq, Repr

/-! ## The options -/

/-- What the option library answers for each option of the test; `sb_get_value_size` returns an
`unsigned long long`. -/
structure MemoryArgs where
  memoryBlockSize : ℕ
  memoryTotalSize : ℕ
  memoryScope : String
  memoryOper : String
  memoryAccessMode : String

/-- **The settings of a test whose arguments were accepted.**  The block size is `ssize_t`, the
total size `long long`. -/
structure MemoryConfig where
  blockSize : ℤ
  totalSize : ℤ
  scope : MemoryScope
  oper : MemoryOper
  accessRnd : Bool
  blockSize_mod : blockSize % 4 = 0
  blockSize_lt : blockSize < 2 ^ 63

/-- `--memory-scope`. -/
def parseScope : String → Except String MemoryScope
  | "global" => .ok .global
  | "local" => .ok .local
  | s => .error ("Invalid value for memory-scope: " ++ s)

/-- `--memory-oper`. -/
def parseOper : String → Except String MemoryOper
  | "write" => .ok .write
  | "read" => .ok .read
  | "none" => .ok .none
  | s => .error ("Invalid value for memory-oper: " ++ s)

/-- `--memory-access-mode`. -/
def parseAccessMode : String → Except String Bool
  | "seq" => .ok false
  | "rnd" => .ok true
  | s => .error ("Invalid value for memory-access-mode: " ++ s)

/-- The buffers of `memory_init`: one for all, or an array of them and one for each of the `threads`
workers.  `alloc k` says whether the `k`-th allocation succeeds, from the heap or, with
`--memory-hugetlb`, from the huge pages. -/
def allocBuffers (alloc : ℕ → Bool) (threads : ℕ) : MemoryScope → Except String Unit
  | .global => if alloc 0 then .ok () else .error "Failed to allocate buffer!"
  | .local =>
    if alloc 0 then
      match (List.range threads).find? fun i => !alloc (i + 1) with
      | some i => .error ("Failed to allocate buffer for thread #" ++ toString i ++ "!")
      | none => .ok ()
    else .error "Failed to allocate buffers array!"

/-- `memory_init`. -/
def memoryInit (alloc : ℕ → Bool) (threads : ℕ) (args : MemoryArgs) :
    Except String MemoryConfig :=
  if hmod : toI64 args.memoryBlockSize % 4 ≠ 0 then
    .error "memory-block-size must be a multiple of 4!"
  else do
    let scope ← parseScope args.memoryScope
    let oper ← parseOper args.memoryOper
    let accessRnd ← parseAccessMode args.memoryAccessMode
    allocBuffers alloc threads scope
    return ⟨toI64 args.memoryBlockSize, toI64 args.memoryTotalSize, scope, oper, accessRnd,
      not_not.mp hmod, toI64_lt _⟩

/-! ## Requests and reports -/

/-- `total_ops`, `total_bytes` and `last_bytes`. -/
structure MemoryStats where
  totalOps : ℕ
  totalBytes : ℤ
  lastBytes : ℤ

/-- `sb_mem_request_t`. -/
structure MemoryRequest where
  blockSize : ℤ
  scope : MemoryScope
  type : MemoryOper

/-- `memory_get_request`; a null request is `none`. -/
def memoryGetRequest (cfg : MemoryConfig) (s : MemoryStats) : Option MemoryRequest × MemoryStats :=
  if cfg.totalSize ≤ s.totalBytes then (none, s)
  else
    (some ⟨cfg.blockSize, cfg.scope, cfg.oper⟩,
      { s with
        totalOps := toU32 (s.totalOps + 1)
        totalBytes := toI64 (s.totalBytes + cfg.blockSize) })

/-- What `memory_print_stats` leaves of the statistics. -/
def memoryPrintStats (s : MemoryStats) : StatType → MemoryStats
  | .intermediate => { s with lastBytes := s.totalBytes }
  | .cumulative => { s with totalOps := 0, totalBytes := 0 }

/-- The bytes whose rate an intermediate report shows. -/
def shownBytes (s : MemoryStats) : ℤ := toI64 (s.totalBytes - s.lastBytes)

/-- The test under way, and which workers were given a null request. -/
structure MemoryRun where
  stats : MemoryStats
  finished : ℕ → Bool

/-- `exec_mutex` makes each of these one step. -/
inductive MemoryMove
  | request (worker : ℕ)
  | report (type : StatType)
  deriving DecidableEq

/-- The test before the first request. -/
def memoryStart : MemoryRun := ⟨⟨0, 0, 0⟩, fun _ => false⟩

/-- `n` workers ask for requests until they are given a null one, and reports are made. -/
def memoryMove (cfg : MemoryConfig) (n : ℕ) (s : MemoryRun) : MemoryMove → Option MemoryRun
  | .request i =>
    if i < n ∧ s.finished i = false then
      match memoryGetRequest cfg s.stats with
      | (some _, stats) => some { s with stats }
      | (none, stats) => some ⟨stats, Function.update s.finished i true⟩
    else none
  | .report type => some { s with stats := memoryPrintStats s.stats type }

/-- **What a move does.** -/
inductive MemoryStep (cfg : MemoryConfig) (n : ℕ) (s : MemoryRun) : MemoryMove → MemoryRun → Prop
  | handed {i : ℕ} (hi : i < n) (hbusy : s.finished i = false)
      (hlt : s.stats.totalBytes < cfg.totalSize) :
      MemoryStep cfg n s (.request i)
        { s with stats := { s.stats with
          totalOps := toU32 (s.stats.totalOps + 1)
          totalBytes := toI64 (s.stats.totalBytes + cfg.blockSize) } }
  | refused {i : ℕ} (hi : i < n) (hbusy : s.finished i = false)
      (hle : cfg.totalSize ≤ s.stats.totalBytes) :
      MemoryStep cfg n s (.request i) ⟨s.stats, Function.update s.finished i true⟩
  | intermediate :
      MemoryStep cfg n s (.report .intermediate)
        { s with stats := { s.stats with lastBytes := s.stats.totalBytes } }
  | cumulative :
      MemoryStep cfg n s (.report .cumulative)
        { s with stats := { s.stats with totalOps := 0, totalBytes := 0 } }

variable {cfg : MemoryConfig} {n k h : ℕ} {s s' t : MemoryRun} {m : MemoryMove}
  {hist : List (MemoryRun × MemoryMove)}

theorem memoryStep_of_move (hmove : memoryMove cfg n s m = some s') : MemoryStep cfg n s m s' := by
  cases m with
  | request i =>
    rw [memoryMove, memoryGetRequest] at hmove
    split at hmove
    next hcan =>
      split_ifs at hmove with hle
      · obtain rfl := Option.some.inj hmove
        exact .refused hcan.1 hcan.2 hle
      · obtain rfl := Option.some.inj hmove
        exact .handed hcan.1 hcan.2 (not_le.mp hle)
    next => cases hmove
  | report type =>
    obtain rfl := Option.some.inj hmove
    cases type with
    | intermediate => exact .intermediate
    | cumulative => exact .cumulative

/-! ## What the test is to transfer -/

/-- `⌈S/B⌉`, the blocks the total size takes. -/
def blocksNeeded (cfg : MemoryConfig) : ℕ := cfg.totalSize.toNat ⌈/⌉ cfg.blockSize.toNat

/-- The move hands out a block. -/
def handsBlock (cfg : MemoryConfig) (e : MemoryRun × MemoryMove) : Bool :=
  match e.2 with
  | .request _ => e.1.stats.totalBytes < cfg.totalSize
  | .report _ => false

/-- The blocks handed out in a run. -/
def blocksHanded (cfg : MemoryConfig) (hist : List (MemoryRun × MemoryMove)) : ℕ :=
  hist.countP (handsBlock cfg)

/-- The states of a run. -/
def reached (hist : List (MemoryRun × MemoryMove)) (s : MemoryRun) : List MemoryRun :=
  hist.map Prod.fst ++ [s]

/-- **The reports only observe**: the run hands out the blocks the total size takes, and no
intermediate report finds, or would find, a negative rate. -/
structure Observed (cfg : MemoryConfig) (hist : List (MemoryRun × MemoryMove)) (s : MemoryRun) :
    Prop where
  handed : blocksHanded cfg hist = blocksNeeded cfg
  last_le : ∀ t ∈ reached hist s, t.stats.lastBytes ≤ t.stats.totalBytes
  shown_nonneg : ∀ t ∈ reached hist s, 0 ≤ shownBytes t.stats

/-- A checkpoint report finds nothing to clear, or nobody left to whom it matters: all workers have
finished, and no intermediate report has seen a block. -/
def ClearsNothing (n : ℕ) (e : MemoryRun × MemoryMove) : Prop :=
  e.2 = .report .cumulative →
    e.1.stats.totalBytes = 0 ∨ e.1.stats.lastBytes = 0 ∧ ∀ i < n, e.1.finished i = true

theorem blocksNeeded_le_iff (hB : 0 < cfg.blockSize) :
    blocksNeeded cfg ≤ k ↔ cfg.totalSize ≤ k * cfg.blockSize := by
  have hcast : (cfg.blockSize.toNat : ℤ) = cfg.blockSize := Int.toNat_of_nonneg hB.le
  rw [blocksNeeded, ceilDiv_le_iff_le_mul (by omega), Int.toNat_le]
  push_cast
  rw [hcast, mul_comm]

theorem blocksHanded_concat (e : MemoryRun × MemoryMove) :
    blocksHanded cfg (hist ++ [e]) = blocksHanded cfg hist + (handsBlock cfg e).toNat :=
  countP_concat _ _ _

theorem handsBlock_of_lt (hlt : s.stats.totalBytes < cfg.totalSize) :
    (handsBlock cfg (s, .request k)).toNat = 1 := by
  simp [handsBlock, hlt]

theorem handsBlock_of_le (hle : cfg.totalSize ≤ s.stats.totalBytes) :
    (handsBlock cfg (s, .request k)).toNat = 0 := by
  simp [handsBlock, hle]

theorem mem_reached_concat {e : MemoryRun × MemoryMove} :
    t ∈ reached (hist ++ [e]) s ↔ t ∈ reached hist e.1 ∨ t = s := by
  simp [reached, or_assoc]

/-! ## What a run takes at least

From a state where nothing is counted, a worker can be refused only after the whole total size has
been handed out, whatever reports are made: they never make `total_bytes` larger. -/

/-- `h` blocks have been handed out since nothing was counted: `total_bytes` is their size, or short
of it by a block at least. -/
structure Behind (cfg : MemoryConfig) (k h : ℕ) (s : MemoryRun) : Prop where
  range : -2 ^ 63 ≤ s.stats.totalBytes ∧ s.stats.totalBytes < 2 ^ 63
  bytes : s.stats.totalBytes = h * cfg.blockSize ∨
    s.stats.totalBytes + cfg.blockSize ≤ h * cfg.blockSize
  finished : s.finished k = true → blocksNeeded cfg ≤ h ∧
    (h = blocksNeeded cfg → h * cfg.blockSize < 2 ^ 63)

/-- A worker that is refused has seen the whole size handed out. -/
theorem Behind.refused (hB : 0 < cfg.blockSize) (hI : Behind cfg k h s)
    (hle : cfg.totalSize ≤ s.stats.totalBytes) :
    blocksNeeded cfg ≤ h ∧ (h = blocksNeeded cfg → h * cfg.blockSize < 2 ^ 63) := by
  obtain ⟨_, hlt⟩ := hI.range
  rcases hI.bytes with heq | hshort
  · exact ⟨(blocksNeeded_le_iff hB).mpr (by omega), fun _ => by omega⟩
  · refine ⟨(blocksNeeded_le_iff hB).mpr (by omega), fun heq => ?_⟩
    cases h with
    | zero => simp
    | succ h =>
      -- one block fewer would have been enough
      have hfewer : blocksNeeded cfg ≤ h := by
        refine (blocksNeeded_le_iff hB).mpr ?_
        push_cast [add_mul, one_mul] at hshort
        omega
      omega

/-- One block more, on a `long long` that may overflow. -/
theorem Behind.handed (hB : 0 < cfg.blockSize) (hI : Behind cfg k h s) :
    -2 ^ 63 ≤ toI64 (s.stats.totalBytes + cfg.blockSize) ∧
      toI64 (s.stats.totalBytes + cfg.blockSize) < 2 ^ 63 ∧
      (toI64 (s.stats.totalBytes + cfg.blockSize) = (h + 1 : ℕ) * cfg.blockSize ∨
        toI64 (s.stats.totalBytes + cfg.blockSize) + cfg.blockSize
          ≤ (h + 1 : ℕ) * cfg.blockSize) := by
  have hlt := cfg.blockSize_lt
  have hrange := hI.range
  have hbytes := hI.bytes
  push_cast [add_mul, one_mul]
  unfold toI64
  omega

theorem Behind.step (hB : 0 < cfg.blockSize) (hI : Behind cfg k h s)
    (hstep : MemoryStep cfg n s m s') : Behind cfg k (h + (handsBlock cfg (s, m)).toNat) s' := by
  cases hstep with
  | handed hi hbusy hlt =>
    rw [handsBlock_of_lt hlt]
    obtain ⟨hge, hlt, hbytes⟩ := hI.handed hB
    refine ⟨⟨hge, hlt⟩, hbytes, fun hfin => ?_⟩
    have hle := (hI.finished hfin).1
    exact ⟨by omega, fun heq => by omega⟩
  | refused hi hbusy hle =>
    rw [handsBlock_of_le hle]
    exact ⟨hI.range, hI.bytes, fun _ => hI.refused hB hle⟩
  | intermediate => exact ⟨hI.range, hI.bytes, hI.finished⟩
  | cumulative =>
    refine ⟨by norm_num, ?_, hI.finished⟩
    change (0 : ℤ) = h * cfg.blockSize ∨ 0 + cfg.blockSize ≤ h * cfg.blockSize
    rcases Nat.eq_zero_or_pos h with rfl | hpos
    · simp
    · right
      nlinarith

/-- **A run that starts with nothing counted and finishes a worker hands out the whole size.** -/
theorem blocksNeeded_le_of_run (hB : 0 < cfg.blockSize) (hrun : Run (memoryMove cfg n) t hist s)
    (hzero : t.stats.totalBytes = 0) (hbusy : t.finished k = false) (hdone : s.finished k = true) :
    blocksNeeded cfg ≤ blocksHanded cfg hist ∧
      (blocksHanded cfg hist = blocksNeeded cfg →
        blocksHanded cfg hist * cfg.blockSize < 2 ^ 63) := by
  have hstart : Behind cfg k (blocksHanded cfg []) t :=
    ⟨by simp [hzero], .inl (by simp [hzero, blocksHanded]), by simp [hbusy]⟩
  refine (hrun.induction (fun hist s => Behind cfg k (blocksHanded cfg hist) s) hstart
    fun hist s m s' hI hmove => ?_).finished hdone
  rw [blocksHanded_concat]
  exact hI.step hB (memoryStep_of_move hmove)

/-! ## Reports that clear nothing -/

/-- `h` blocks have been handed out and no report has interfered. -/
structure Undisturbed (cfg : MemoryConfig) (n h : ℕ) (s : MemoryRun) : Prop where
  handed_le : h ≤ blocksNeeded cfg
  last_nonneg : 0 ≤ s.stats.lastBytes
  last_le : s.stats.lastBytes ≤ s.stats.totalBytes
  total_le : s.stats.totalBytes ≤ h * cfg.blockSize
  total_eq : ∀ i < n, s.finished i = false → s.stats.totalBytes = h * cfg.blockSize
  finished : ∀ i < n, s.finished i = true → blocksNeeded cfg ≤ h

/-- What has been handed out fits a `long long`. -/
theorem sent_lt (hB : 0 < cfg.blockSize) (hfit : blocksNeeded cfg * cfg.blockSize < 2 ^ 63)
    (hle : h ≤ blocksNeeded cfg) : h * cfg.blockSize < 2 ^ 63 :=
  lt_of_le_of_lt (mul_le_mul_of_nonneg_right (by exact_mod_cast hle) hB.le) hfit

theorem Undisturbed.shown_nonneg (hB : 0 < cfg.blockSize)
    (hfit : blocksNeeded cfg * cfg.blockSize < 2 ^ 63) (hI : Undisturbed cfg n h s) :
    0 ≤ shownBytes s.stats := by
  have hlt := sent_lt hB hfit hI.handed_le
  have h₀ := hI.last_nonneg
  have h₁ := hI.last_le
  have h₂ := hI.total_le
  rw [shownBytes, toI64_of_lt (by omega) (by omega)]
  omega

theorem Undisturbed.step (hB : 0 < cfg.blockSize)
    (hfit : blocksNeeded cfg * cfg.blockSize < 2 ^ 63) (hI : Undisturbed cfg n h s)
    (hok : ClearsNothing n (s, m)) (hstep : MemoryStep cfg n s m s') :
    Undisturbed cfg n (h + (handsBlock cfg (s, m)).toNat) s' := by
  cases hstep with
  | handed hi hbusy hlt =>
    rw [handsBlock_of_lt hlt]
    have htotal := hI.total_eq _ hi hbusy
    have hmore : h < blocksNeeded cfg := by
      by_contra hge
      have := (blocksNeeded_le_iff hB).mp (not_lt.mp hge)
      omega
    have hsent := sent_lt (h := h + 1) hB hfit hmore
    have h₀ := hI.last_nonneg
    have h₁ := hI.last_le
    have heq : toI64 (s.stats.totalBytes + cfg.blockSize) = (h + 1 : ℕ) * cfg.blockSize := by
      push_cast [add_mul, one_mul] at hsent ⊢
      rw [toI64_of_lt (by omega) (by omega), htotal]
    refine ⟨hmore, h₀, ?_, heq.le, fun _ _ _ => heq, fun i hi hfin => ?_⟩
    · change _ ≤ toI64 (s.stats.totalBytes + cfg.blockSize)
      rw [heq]
      push_cast [add_mul, one_mul]
      omega
    · exact (hI.finished i hi hfin).trans (Nat.le_succ h)
  | refused hi hbusy hle =>
    rw [handsBlock_of_le hle]
    have htotal := hI.total_eq _ hi hbusy
    have hneeded : blocksNeeded cfg ≤ h := (blocksNeeded_le_iff hB).mpr (by omega)
    exact ⟨hI.handed_le, hI.last_nonneg, hI.last_le, hI.total_le, fun _ _ _ => htotal,
      fun _ _ _ => hneeded⟩
  | intermediate =>
    exact ⟨hI.handed_le, hI.last_nonneg.trans hI.last_le, le_rfl, hI.total_le, hI.total_eq,
      hI.finished⟩
  | cumulative =>
    have h₀ := hI.last_nonneg
    have h₁ := hI.last_le
    have h₂ := hI.total_le
    rcases hok rfl with hzero | ⟨hlast, hall⟩
    · have hzero : s.stats.totalBytes = 0 := hzero
      refine ⟨hI.handed_le, h₀, ?_, ?_, fun i hi hbusy => ?_, hI.finished⟩
      · exact hzero ▸ h₁
      · exact hzero ▸ h₂
      · exact hzero ▸ hI.total_eq i hi hbusy
    · have hlast : s.stats.lastBytes = 0 := hlast
      refine ⟨hI.handed_le, h₀, hlast.le, ?_, fun i hi hbusy => ?_, hI.finished⟩
      · change (0 : ℤ) ≤ h * cfg.blockSize
        positivity
      · exact absurd (hall i hi) (by simp [show s.finished i = false from hbusy])

theorem undisturbed_of_run (hB : 0 < cfg.blockSize)
    (hfit : blocksNeeded cfg * cfg.blockSize < 2 ^ 63)
    (hrun : Run (memoryMove cfg n) memoryStart hist s) (hok : ∀ e ∈ hist, ClearsNothing n e) :
    Undisturbed cfg n (blocksHanded cfg hist) s ∧
      ∀ t ∈ reached hist s, ∃ h, Undisturbed cfg n h t := by
  have hstart : Undisturbed cfg n (blocksHanded cfg []) memoryStart :=
    ⟨Nat.zero_le _, le_rfl, le_rfl, by simp [memoryStart, blocksHanded],
      by simp [memoryStart, blocksHanded], by simp [memoryStart]⟩
  refine hrun.induction (fun hist s => (∀ e ∈ hist, ClearsNothing n e) →
    Undisturbed cfg n (blocksHanded cfg hist) s ∧
      ∀ t ∈ reached hist s, ∃ h, Undisturbed cfg n h t)
    (fun _ => ⟨hstart, by simpa [reached] using ⟨_, hstart⟩⟩) ?_ hok
  intro hist s m s' hind hmove hall
  rw [List.forall_mem_append, List.forall_mem_singleton] at hall
  obtain ⟨hI, hreached⟩ := hind hall.1
  have hnext := hI.step hB hfit hall.2 (memoryStep_of_move hmove)
  rw [← blocksHanded_concat] at hnext
  refine ⟨hnext, fun t ht => ?_⟩
  rcases mem_reached_concat.mp ht with ht | rfl
  · exact hreached t ht
  · exact ⟨_, hnext⟩

/-! ## Reports that clear something -/

/-- As long as the blocks fit a `long long`, nothing counted is negative. -/
def Sound (cfg : MemoryConfig) (h : ℕ) (s : MemoryRun) : Prop :=
  h * cfg.blockSize < 2 ^ 63 →
    0 ≤ s.stats.lastBytes ∧ 0 ≤ s.stats.totalBytes ∧ s.stats.totalBytes ≤ h * cfg.blockSize

theorem Sound.step (hB : 0 < cfg.blockSize) (hI : Sound cfg h s)
    (hstep : MemoryStep cfg n s m s') : Sound cfg (h + (handsBlock cfg (s, m)).toNat) s' := by
  cases hstep with
  | handed hi hbusy hlt =>
    rw [handsBlock_of_lt hlt]
    intro hfit
    push_cast [add_mul, one_mul] at hfit ⊢
    obtain ⟨h₀, h₁, h₂⟩ := hI (by omega)
    have heq := toI64_of_lt (x := s.stats.totalBytes + cfg.blockSize) (by omega) (by omega)
    omega
  | refused hi hbusy hle =>
    rw [handsBlock_of_le hle]
    exact hI
  | intermediate => exact fun hfit => ⟨(hI hfit).2.1, (hI hfit).2⟩
  | cumulative =>
    exact fun hfit => ⟨(hI hfit).1, le_rfl, (hI hfit).2.1.trans (hI hfit).2.2⟩

theorem sound_of_run (hB : 0 < cfg.blockSize)
    (hrun : Run (memoryMove cfg n) memoryStart hist s) : Sound cfg (blocksHanded cfg hist) s := by
  refine hrun.induction (fun hist s => Sound cfg (blocksHanded cfg hist) s)
    (fun _ => by simp [memoryStart, blocksHanded]) fun hist s m s' hI hmove => ?_
  rw [blocksHanded_concat]
  exact hI.step hB (memoryStep_of_move hmove)

theorem mem_reached_of_run (hrun : Run (memoryMove cfg n) t hist s) : t ∈ reached hist s :=
  hrun.induction (fun hist s => t ∈ reached hist s) (by simp [reached])
    fun _ _ _ _ hI _ => mem_reached_concat.mpr (.inl hI)

theorem mem_reached_of_after {after : List (MemoryRun × MemoryMove)}
    (before : List (MemoryRun × MemoryMove)) (e : MemoryRun × MemoryMove)
    (ht : t ∈ reached after s) : t ∈ reached (before ++ e :: after) s := by
  rw [reached, List.map_append, List.map_cons, List.append_assoc, List.cons_append]
  exact List.mem_append_right _ (List.mem_cons_of_mem _ ht)

/-- Where the reports only observe, no checkpoint report clears anything. -/
theorem Observed.clearsNothing (hB : 0 < cfg.blockSize)
    (hrun : Run (memoryMove cfg n) memoryStart hist s) (hdone : ∀ i < n, s.finished i = true)
    (hfit : blocksNeeded cfg * cfg.blockSize < 2 ^ 63) (hobs : Observed cfg hist s) :
    ∀ e ∈ hist, ClearsNothing n e := by
  intro e he hreport
  obtain ⟨before, after, rfl⟩ := List.mem_iff_append.mp he
  obtain ⟨t, hbefore, hmove, hafter⟩ := Run.split hrun
  rw [hreport] at hmove
  obtain rfl := Option.some.inj hmove
  have hnone : handsBlock cfg e = false := by simp [handsBlock, hreport]
  have hhanded : blocksHanded cfg before + blocksHanded cfg after = blocksNeeded cfg := by
    rw [← hobs.handed, blocksHanded, blocksHanded, blocksHanded, List.countP_append,
      List.countP_cons_of_neg (by simp [hnone])]
  obtain ⟨hlast, htotal, hle⟩ :=
    sound_of_run hB hbefore (sent_lt hB hfit (hhanded ▸ Nat.le_add_right _ _))
  by_cases hzero : e.1.stats.totalBytes = 0
  · exact .inl hzero
  refine .inr ⟨?_, fun i hi => ?_⟩
  · -- the report leaves `last_bytes` where it was
    have hlater := mem_reached_of_after before e (mem_reached_of_run hafter)
    exact le_antisymm (hobs.last_le _ hlater) hlast
  · -- a worker still busy takes the whole size once more
    by_contra hbusy
    have hmore := (blocksNeeded_le_of_run (k := i) hB hafter rfl (by simpa using hbusy)
      (hdone i hi)).1
    have hnothing : blocksHanded cfg before = 0 := by omega
    rw [hnothing] at hle
    push_cast at hle
    omega

/-- **Reports only observe the memory test exactly when none of them clears anything**: for every
block size and total size, every number of workers, and every interleaving of requests and reports
in which all workers finish. -/
theorem reports_observe_iff (hB : 0 < cfg.blockSize) (hn : 0 < n)
    (hrun : Run (memoryMove cfg n) memoryStart hist s) (hdone : ∀ i < n, s.finished i = true) :
    Observed cfg hist s ↔
      blocksNeeded cfg * cfg.blockSize < 2 ^ 63 ∧ ∀ e ∈ hist, ClearsNothing n e := by
  constructor
  · intro hobs
    have hfit := (blocksNeeded_le_of_run (k := 0) hB hrun rfl rfl (hdone 0 hn)).2 hobs.handed
    rw [hobs.handed] at hfit
    exact ⟨hfit, hobs.clearsNothing hB hrun hdone hfit⟩
  · rintro ⟨hfit, hok⟩
    obtain ⟨hI, hreached⟩ := undisturbed_of_run hB hfit hrun hok
    refine ⟨le_antisymm hI.handed_le (hI.finished 0 hn (hdone 0 hn)), fun t ht => ?_,
      fun t ht => ?_⟩
    · obtain ⟨_, ht⟩ := hreached t ht
      exact ht.last_le
    · obtain ⟨_, ht⟩ := hreached t ht
      exact ht.shown_nonneg hB hfit

/-- Two blocks of four bytes. -/
def eightBytes : MemoryConfig := ⟨4, 8, .global, .write, false, by decide, by norm_num⟩

/-- Two blocks with an intermediate report between them, and a checkpoint report before the
first. -/
theorem reports_observe_eightBytes :
    memoryInit (fun _ => true) 1 ⟨4, 8, "global", "write", "seq"⟩ = .ok eightBytes ∧
    ∃ hist s, Run (memoryMove eightBytes 1) memoryStart hist s ∧
      hist.map Prod.snd = [.report .cumulative, .request 0, .report .intermediate, .request 0,
        .request 0] ∧ Observed eightBytes hist s := by
  have h : Run.play (memoryMove eightBytes 1) memoryStart [.report .cumulative, .request 0,
      .report .intermediate, .request 0, .request 0] = some (_, _) := rfl
  refine ⟨rfl, _, _, Run.of_play h, rfl, (reports_observe_iff (by decide) one_pos (Run.of_play h)
    fun i hi => ?_).mpr ⟨by decide, ?_⟩⟩
  · obtain rfl := Nat.lt_one_iff.mp hi
    rfl
  · simp [ClearsNothing, memoryStart]

/-- **A checkpoint report after the first block**: the test hands out a third one, and the next
intermediate report shows a negative rate. -/
theorem reports_disturb :
    memoryInit (fun _ => true) 1 ⟨4, 8, "global", "write", "seq"⟩ = .ok eightBytes ∧
    ∃ hist s, Run (memoryMove eightBytes 1) memoryStart hist s ∧ s.finished 0 = true ∧
      hist.map Prod.snd = [.request 0, .report .intermediate, .report .cumulative,
        .report .intermediate, .request 0, .request 0, .request 0] ∧
      blocksHanded eightBytes hist = 3 ∧ blocksNeeded eightBytes = 2 ∧
      (∃ e ∈ hist, e.2 = .report .intermediate ∧ e.1.stats.totalBytes < e.1.stats.lastBytes ∧
        shownBytes e.1.stats = -4) ∧
      ¬ Observed eightBytes hist s := by
  have h : Run.play (memoryMove eightBytes 1) memoryStart [.request 0, .report .intermediate,
      .report .cumulative, .report .intermediate, .request 0, .request 0, .request 0]
      = some (_, _) := rfl
  refine ⟨rfl, _, _, Run.of_play h, rfl, rfl, by decide, by decide, ?_, fun hobs => ?_⟩
  · exact ⟨_, List.mem_of_getElem? (i := 3) rfl, rfl, by decide, by decide⟩
  · exact absurd hobs.handed (by decide)

end Sysbench.Workloads
