import Sysbench.Fileio.RandomBounds
import Sysbench.Fileio.SeqStream
import Sysbench.Fileio.FsyncSchedule

/-!
# Fileio/SeqBounds — where the sequential generator lands

The sequential cursor moves on by the size of each request and leaves a file only when it stands
*exactly* at `file_size`.  So it stays inside the files precisely when the sizes of its requests add
up to the size of a file (`Tiled`): a merged request is cut at the end of the file and needs only a
positive size to start from, an unmerged one is a block whatever is left, and the blocks have to
tile the file.  Otherwise the cursor steps over the end of the first file and never comes back.  The
comparison that cuts a merged request is a sum of its own, and the last one of a file that full
requests do not tile must not leave `long long`.
-/

namespace Sysbench.Fileio

variable {cfg : Config} {g : Globals} {s : GenState} {r : FileRequest}
  {outs : List (Option FileRequest)}

/-- **Every run of the sequential generator stays inside the files**: each call answers, and each
data request moves at least one byte, inside a file that exists. -/
def SeqInBounds (cfg : Config) : Prop :=
  ∀ (g : Globals) (perThread : ℕ → ℕ × ℤ) (outs : List (Option FileRequest)) (s : GenState),
    Trace (request cfg g) (initVars perThread) outs s →
      (∀ r, some r ∈ outs → r.isData → 0 < r.size ∧ InBounds cfg r) ∧
        ∀ c, (request cfg g s c).isSome

/-- **The requests of a file add up to its size.**  `maxRequestSize` is the product of the block
size and the merge factor as 32-bit arithmetic leaves it. -/
structure Tiled (cfg : Config) : Prop where
  fileSize_pos : 0 < cfg.fileSize
  merged : 0 < cfg.mergedRequests →
    0 < cfg.maxRequestSize ∧ roundUp cfg.fileSize cfg.maxRequestSize < 2 ^ 63
  unmerged : cfg.mergedRequests = 0 → cfg.blockSize ∣ cfg.fileSize

/-! ## The cursor -/

/-- Requests that are not merged are blocks. -/
theorem maxRequestSize_unmerged (h : cfg.mergedRequests = 0) :
    cfg.maxRequestSize = cfg.blockSize := by
  rw [cfg.maxRequestSize_eq, if_neg h.not_gt]

theorem mergedRequests_cases (cfg : Config) : 0 < cfg.mergedRequests ∨ cfg.mergedRequests = 0 :=
  cfg.mergedRequests_nonneg.lt_or_eq.imp_right Eq.symm

theorem Tiled.maxRequestSize_pos (hT : Tiled cfg) : 0 < cfg.maxRequestSize := by
  rcases mergedRequests_cases cfg with hm | hm
  · exact (hT.merged hm).1
  · rw [maxRequestSize_unmerged hm]
    exact cfg.blockSize_pos

/-- The position is inside a file, after full requests only. -/
def InFile (cfg : Config) (p : ℤ) : Prop := 0 ≤ p ∧ p < cfg.fileSize ∧ cfg.maxRequestSize ∣ p

/-- The cursor is inside a file, or waits for the rewind after the last one. -/
def Cursor (cfg : Config) (s : GenState) : Prop :=
  InFile cfg s.position ∧ s.currentFile ≤ cfg.numFiles

theorem inFile_zero (hS : 0 < cfg.fileSize) : InFile cfg 0 := ⟨le_rfl, hS, dvd_zero _⟩

theorem cursor_initVars (hS : 0 < cfg.fileSize) (perThread : ℕ → ℕ × ℤ) :
    Cursor cfg (initVars perThread) := ⟨inFile_zero hS, Nat.zero_le _⟩

theorem rewind_cursor (h : Cursor cfg s) :
    InFile cfg (rewind cfg s).position ∧ (rewind cfg s).currentFile < cfg.numFiles := by
  obtain ⟨hin, hle⟩ := h
  unfold rewind
  split
  next => exact ⟨inFile_zero (hin.1.trans_lt hin.2.1), cfg.numFiles_pos⟩
  next hne => exact ⟨hin, lt_of_le_of_ne hle hne⟩

/-- A full request at the cursor ends inside the file where full requests tile it. -/
theorem InFile.add_le {p : ℤ} (h : InFile cfg p) (hdvd : cfg.maxRequestSize ∣ cfg.fileSize) :
    p + cfg.maxRequestSize ≤ cfg.fileSize := by
  have := Int.le_of_dvd (sub_pos.mpr h.2.1) (hdvd.sub h.2.2)
  omega

/-- **A full request at the cursor ends within `long long`.** -/
theorem InFile.add_lt (hT : Tiled cfg) {p : ℤ} (h : InFile cfg p) :
    p + cfg.maxRequestSize < 2 ^ 63 := by
  rcases mergedRequests_cases cfg with hm | hm
  · obtain ⟨hM, hround⟩ := hT.merged hm
    exact (add_le_roundUp hM h.2.2 h.2.1).trans_lt hround
  · have hdvd : cfg.maxRequestSize ∣ cfg.fileSize := maxRequestSize_unmerged hm ▸ hT.unmerged hm
    exact (h.add_le hdvd).trans_lt (fileSize_lt cfg)

/-- **A request at the cursor fits in what is left of the file**, and leaves it only at its end or
after a full request. -/
theorem seqSize_fits (hT : Tiled cfg) (h : InFile cfg s.position) :
    0 < seqSize cfg s ∧ s.position + seqSize cfg s ≤ cfg.fileSize ∧
      (s.position + seqSize cfg s = cfg.fileSize ∨ seqSize cfg s = cfg.maxRequestSize) := by
  have hlt := h.2.1
  have hM := hT.maxRequestSize_pos
  unfold seqSize
  split_ifs with hm hle
  · exact ⟨hM, hle, Or.inr rfl⟩
  · exact ⟨by omega, by omega, Or.inl (by omega)⟩
  · have h0 : cfg.mergedRequests = 0 := le_antisymm (not_lt.mp hm) cfg.mergedRequests_nonneg
    have hb := maxRequestSize_unmerged h0
    have hle := h.add_le (hb ▸ hT.unmerged h0)
    rw [hb] at hle hM
    exact ⟨hM, hle, Or.inr hb.symm⟩

theorem neg_le_maxRequestSize (cfg : Config) : -2 ^ 31 ≤ cfg.maxRequestSize := by
  have hb := cfg.blockSize_pos
  rw [cfg.maxRequestSize_eq]
  split_ifs
  · unfold toI32
    omega
  · omega

/-- No sum overflows where a full request ends within `long long`. -/
theorem cursorOverflows_of_lt (hp : 0 ≤ s.position) (hle : s.position ≤ cfg.fileSize)
    (hadd : s.position + cfg.maxRequestSize < 2 ^ 63) : cursorOverflows cfg s = false := by
  have hS := fileSize_lt cfg
  have hM := neg_le_maxRequestSize cfg
  have hsize : -2 ^ 31 ≤ seqSize cfg s ∧ s.position + seqSize cfg s < 2 ^ 63 := by
    unfold seqSize
    split_ifs with hm hfit
    · exact ⟨hM, hadd⟩
    · exact ⟨by omega, by omega⟩
    · have h0 := (mergedRequests_cases cfg).resolve_left hm
      rw [← maxRequestSize_unmerged h0]
      exact ⟨hM, hadd⟩
  have h₁ : fitsI64 (s.position + cfg.maxRequestSize) := fitsI64_iff.mpr ⟨by omega, hadd⟩
  have h₂ : fitsI64 (seqSize cfg s) := fitsI64_iff.mpr ⟨by omega, by omega⟩
  have h₃ : fitsI64 (s.position + seqSize cfg s) := fitsI64_iff.mpr ⟨by omega, hsize.2⟩
  simp [cursorOverflows, h₁, h₂, h₃]

/-- No sum of a request at the cursor overflows. -/
theorem cursorOverflows_inFile (hT : Tiled cfg) (h : InFile cfg s.position) :
    cursorOverflows cfg s = false :=
  cursorOverflows_of_lt h.1 h.2.1.le (h.add_lt hT)

theorem advance_cursor {size : ℤ} (hin : InFile cfg s.position) (hlt : s.currentFile < cfg.numFiles)
    (hpos : 0 < size) (hle : s.position + size ≤ cfg.fileSize)
    (hfull : s.position + size = cfg.fileSize ∨ size = cfg.maxRequestSize) :
    Cursor cfg (advance cfg size s) := by
  have hn := cfg.numFiles_lt
  unfold advance
  split
  next =>
    refine ⟨inFile_zero (hin.1.trans_lt hin.2.1), ?_⟩
    change (s.currentFile + 1) % 2 ^ 32 ≤ cfg.numFiles
    rw [Nat.mod_eq_of_lt (by omega)]
    exact hlt
  next hne =>
    have hM : cfg.maxRequestSize ∣ size := (hfull.resolve_left hne).symm.dvd
    exact ⟨⟨add_nonneg hin.1 hpos.le, lt_of_le_of_ne hle hne, hin.2.2.add hM⟩, hlt.le⟩

/-- A request of a positive size inside an existing file passes the check of
`file_execute_request`. -/
theorem inBounds_of_lt (hf : r.fileId < cfg.numFiles) (hp : 0 ≤ r.pos)
    (hle : r.pos + r.size ≤ cfg.fileSize) : InBounds cfg r := by
  refine ⟨hf, hp, hle, ?_⟩
  rw [checkRequestParameters, if_neg (by omega), if_neg (by omega)]

theorem checkOrder_cursor : Cursor cfg (checkOrder cfg g r s) ↔ Cursor cfg s := by
  unfold checkOrder
  split <;> rfl

/-! ## Tiled requests keep the cursor inside -/

/-- **A data request is in bounds, and leaves the cursor in a file.** -/
theorem seqData_inBounds (hT : Tiled cfg) (h : Cursor cfg s) :
    (∀ r, (seqData cfg g s).1 = some r → 0 < r.size ∧ InBounds cfg r) ∧
      Cursor cfg (seqData cfg g s).2 := by
  obtain ⟨hin, hlt⟩ := rewind_cursor (s := countRequest (seqOp cfg) s) h
  obtain ⟨hpos, hle, hfull⟩ := seqSize_fits hT hin
  refine ⟨fun r hr => ?_, ?_⟩
  · obtain rfl := Option.some.inj hr
    exact ⟨hpos, inBounds_of_lt hlt hin.1 hle⟩
  · exact checkOrder_cursor.mpr (advance_cursor hin hlt hpos hle hfull)

theorem endRequest_cursor (wanted : Bool) (h : Cursor cfg s) :
    (∀ r, (endRequest cfg wanted s).1 = some r → r.isData = false) ∧
      Cursor cfg (endRequest cfg wanted s).2 := by
  unfold endRequest
  split
  · exact ⟨fun r hr => Option.some.inj hr ▸ fsyncOf_isData _, h⟩
  · exact ⟨by simp, h⟩

theorem fsyncRequest_cursor (h : Cursor cfg s) :
    (∀ r, (fsyncRequest cfg s).1 = some r → r.isData = false) ∧
      Cursor cfg (fsyncRequest cfg s).2 := by
  unfold fsyncRequest
  refine ⟨fun r hr => Option.some.inj hr ▸ fsyncOf_isData _, ?_⟩
  dsimp only
  split <;> exact h

/-- **One call keeps the cursor in a file**, and answers in bounds. -/
theorem fileGetSeqRequest_inBounds (hT : Tiled cfg) (h : Cursor cfg s) :
    (∀ r, (fileGetSeqRequest cfg g s).1 = some r → r.isData → 0 < r.size ∧ InBounds cfg r) ∧
      Cursor cfg (fileGetSeqRequest cfg g s).2 := by
  unfold fileGetSeqRequest
  split_ifs
  · obtain ⟨hr, hs⟩ := endRequest_cursor (cfg.fsyncEnd && seqOp cfg = .write) h
    exact ⟨fun r hout hdata => absurd hdata (by simp [hr r hout]), hs⟩
  · obtain ⟨hr, hs⟩ := fsyncRequest_cursor h
    exact ⟨fun r hout hdata => absurd hdata (by simp [hr r hout]), hs⟩
  · obtain ⟨hr, hs⟩ := seqData_inBounds (g := g) hT h
    exact ⟨fun r hout _ => hr r hout, hs⟩

/-- With the cursor in a file every call answers. -/
theorem request_isSome_of_cursor (hseq : cfg.testMode.sequential) (hT : Tiled cfg)
    (h : Cursor cfg s) (c : Call) : (request cfg g s c).isSome := by
  have hov : seqOverflows cfg g s = false := by
    simp [seqOverflows, cursorOverflows_inFile hT (rewind_cursor h).1]
  rw [request_seq hseq, hov]
  rfl

theorem seqInBounds_of_tiled (hseq : cfg.testMode.sequential) (hT : Tiled cfg) :
    SeqInBounds cfg := by
  intro g perThread outs s h
  have hinv := h.invariant (fun outs s => (∀ r, some r ∈ outs → r.isData → 0 < r.size ∧
    InBounds cfg r) ∧ Cursor cfg s) ⟨by simp, cursor_initVars hT.fileSize_pos perThread⟩ ?_
  · exact ⟨hinv.1, request_isSome_of_cursor hseq hT hinv.2⟩
  intro outs s c o s' ⟨hall, hs⟩ hstep
  obtain ⟨hr, hs'⟩ := fileGetSeqRequest_inBounds (g := g)
    (s := { s with readOps := c.readOps, writeOps := c.writeOps }) hT hs
  rw [request_seq_eq hseq hstep] at hr hs'
  refine ⟨fun r hmem => ?_, hs'⟩
  rcases List.mem_append.mp hmem with hmem | hmem
  · exact hall r hmem
  · exact hr r (List.mem_singleton.mp hmem).symm

/-! ## Otherwise the cursor steps over the end -/

/-- The next call is a data request. -/
def DataNext (cfg : Config) (s : GenState) : Prop := (seqOp cfg = .write && fsyncDue cfg s) = false

/-- The request a data call answers with. -/
def cursorRequest (cfg : Config) (s : GenState) : FileRequest :=
  ⟨s.currentFile, s.position, seqSize cfg s, seqOp cfg⟩

theorem cursorRequest_isData : (cursorRequest cfg s).isData := by
  unfold cursorRequest FileRequest.isData seqOp
  split_ifs <;> rfl

/-- A run without a limit, at a cursor inside the pass, goes on with the request of the cursor when
every call answers. -/
theorem SeqInBounds.trace_data (hin : SeqInBounds cfg) (hseq : cfg.testMode.sequential)
    {perThread : ℕ → ℕ × ℤ} (h : Trace (request cfg (unlimited 1)) (initVars perThread) outs s)
    (hnext : DataNext cfg s) (hfile : s.currentFile ≠ cfg.numFiles) :
    cursorOverflows cfg s = false ∧ (0 < seqSize cfg s ∧ InBounds cfg (cursorRequest cfg s)) ∧
    ∃ s', Trace (request cfg (unlimited 1)) (initVars perThread)
        (outs ++ [some (cursorRequest cfg s)]) s' ∧
      s'.fsyncedFile = s.fsyncedFile ∧
      s'.position = (advance cfg (seqSize cfg s) s).position ∧
      s'.currentFile = (advance cfg (seqSize cfg s) s).currentFile := by
  have hsome := (hin _ _ _ _ h).2 ⟨0, [], s.readOps, s.writeOps⟩
  rw [request_seq hseq] at hsome
  have hov : seqOverflows cfg (unlimited 1) s = false := by
    by_contra hov
    rw [if_pos (by simpa using hov)] at hsome
    cases hsome
  have hcall : request cfg (unlimited 1) s ⟨0, [], s.readOps, s.writeOps⟩
      = some (some (cursorRequest cfg s), (seqData cfg (unlimited 1) s).2) := by
    rw [request_seq hseq, hov]
    change some (fileGetSeqRequest cfg (unlimited 1) s) = _
    rw [fileGetSeqRequest, hnext]
    simp [limitReached, unlimited, seqData, rewind, hfile, cursorRequest, countRequest, seqSize]
  have h' := h.snoc hcall
  refine ⟨?_, (hin _ _ _ _ h').1 _ (List.mem_append_right _ (List.mem_singleton_self _))
    cursorRequest_isData, _, h', ?_⟩
  · have hdata : (seqOp cfg = .write && fsyncDue cfg s) = false := hnext
    simpa [seqOverflows, limitReached, unlimited, rewind, hfile, hdata] using hov
  · simp only [seqData, rewind, countRequest, hfile, if_false, checkOrder, unlimited,
      Bool.false_eq_true, advance, seqSize]
    split_ifs <;> exact ⟨rfl, rfl, rfl⟩

/-- **A periodic series comes to an end**: some run gets to the next data request with the cursor
where it is. -/
theorem exists_dataNext (hseq : cfg.testMode.sequential) {perThread : ℕ → ℕ × ℤ} (m : ℕ) :
    ∀ {outs : List (Option FileRequest)} {s : GenState},
      Trace (request cfg (unlimited 1)) (initVars perThread) outs s →
      s.fsyncedFile < cfg.numFiles → cfg.numFiles - s.fsyncedFile = m →
      ∃ outs' s', Trace (request cfg (unlimited 1)) (initVars perThread) outs' s' ∧
        s'.fsyncedFile < cfg.numFiles ∧ s'.position = s.position ∧
        s'.currentFile = s.currentFile ∧ DataNext cfg s' := by
  induction m with
  | zero => intro outs s _ hlt hm; omega
  | succ m ih =>
    intro outs s h hlt hm
    rcases Bool.eq_false_or_eq_true (seqOp cfg = .write && fsyncDue cfg s) with hdue | hdue
    · -- one more fsync of the series, which either is the last one or leaves fewer to go
      have hcall : request cfg (unlimited 1) s ⟨0, [], s.readOps, s.writeOps⟩
          = some (fsyncRequest cfg s) := by
        rw [request_seq hseq, seqOverflows, hdue, Bool.not_true, Bool.and_false, Bool.false_and]
        change some (fileGetSeqRequest cfg (unlimited 1) s) = _
        rw [fileGetSeqRequest, hdue]
        simp [limitReached, unlimited]
      have h' := h.snoc hcall
      by_cases hlast : s.fsyncedFile + 1 = cfg.numFiles
      · rw [if_pos hlast] at h'
        refine ⟨_, _, h', cfg.numFiles_pos, rfl, rfl, ?_⟩
        simp [DataNext, fsyncDue]
      · rw [if_neg hlast] at h'
        obtain ⟨outs', s', h'', hlt', hp, hf, hnext⟩ := ih h' (by change _ + 1 < _; omega)
          (by change _ - (_ + 1) = _; omega)
        exact ⟨outs', s', h'', hlt', hp, hf, hnext⟩
    · exact ⟨outs, s, h, hlt, rfl, rfl, hdue⟩

/-- **Full requests that do not tile the file lead to its tail**: request after request the cursor
moves on, and never stands at the end. -/
theorem SeqInBounds.exists_position (hin : SeqInBounds cfg) (hseq : cfg.testMode.sequential)
    (hdvd : ¬ cfg.maxRequestSize ∣ cfg.fileSize) (k : ℕ)
    (hk : k * cfg.maxRequestSize ≤ cfg.fileSize) (hM : 0 < cfg.maxRequestSize) :
    ∃ outs s, Trace (request cfg (unlimited 1)) (initVars fun _ => (0, 0)) outs s ∧
      s.fsyncedFile < cfg.numFiles ∧ s.position = k * cfg.maxRequestSize ∧ s.currentFile = 0 ∧
      DataNext cfg s := by
  induction k with
  | zero =>
    refine ⟨[], _, .nil, cfg.numFiles_pos, by simp [initVars], rfl, ?_⟩
    simp [DataNext, fsyncDue, initVars]
  | succ k ih =>
    have hsucc : ((k + 1 : ℕ) : ℤ) * cfg.maxRequestSize
        = k * cfg.maxRequestSize + cfg.maxRequestSize := by
      push_cast
      ring
    rw [hsucc] at hk
    obtain ⟨outs, s, h, hlt, hp, hf, hnext⟩ := ih (by omega)
    have hfile : s.currentFile ≠ cfg.numFiles := by
      rw [hf]
      exact cfg.numFiles_pos.ne
    have hsize : seqSize cfg s = cfg.maxRequestSize := by
      rcases mergedRequests_cases cfg with hm | hm
      · rw [seqSize, if_pos hm, hp, if_pos hk]
      · rw [seqSize, if_neg hm.not_gt, maxRequestSize_unmerged hm]
    have hne : s.position + cfg.maxRequestSize ≠ cfg.fileSize := fun heq =>
      hdvd ⟨(k + 1 : ℕ), by rw [← heq, hp, ← hsucc, mul_comm]⟩
    obtain ⟨-, -, s', h', hlt', hp', hf'⟩ := hin.trace_data hseq h hnext hfile
    rw [hsize, advance, if_neg hne] at hp' hf'
    obtain ⟨outs', s'', h'', hlt'', hp'', hf'', hnext'⟩ :=
      exists_dataNext hseq _ h' (by omega) rfl
    exact ⟨outs', s'', h'', hlt'', by rw [hp'', hp', hsucc]; exact congrArg (· + _) hp,
      hf''.trans (hf'.trans hf), hnext'⟩

/-- The first call of a run answers with the request at the start of the first file. -/
theorem SeqInBounds.first (hseq : cfg.testMode.sequential) (h : SeqInBounds cfg) :
    0 < seqSize cfg (initVars fun _ => (0, 0)) ∧
      seqSize cfg (initVars fun _ => (0, 0)) ≤ cfg.fileSize := by
  have hnext : DataNext cfg (initVars fun _ => (0, 0)) := by simp [DataNext, fsyncDue, initVars]
  obtain ⟨-, ⟨hpos, -, -, hle, -⟩, -⟩ := h.trace_data hseq .nil hnext cfg.numFiles_pos.ne
  exact ⟨hpos, by simpa [cursorRequest, initVars] using hle⟩

/-- **The tail of a file that full requests do not tile**: requests are merged, and the end of a
full one is within `long long`. -/
theorem SeqInBounds.tail (hseq : cfg.testMode.sequential) (hin : SeqInBounds cfg)
    (hS : 0 < cfg.fileSize) (hM : 0 < cfg.maxRequestSize)
    (hdvd : ¬ cfg.maxRequestSize ∣ cfg.fileSize) :
    0 < cfg.mergedRequests ∧ roundUp cfg.fileSize cfg.maxRequestSize < 2 ^ 63 := by
  obtain ⟨k, hk⟩ := Int.eq_ofNat_of_zero_le (Int.ediv_nonneg hS.le hM.le)
  have hend := Int.lt_ediv_add_one_mul_self cfg.fileSize hM
  have hle := Int.ediv_mul_le cfg.fileSize hM.ne'
  rw [hk] at hend hle
  rw [add_mul, one_mul] at hend
  have hne : k * cfg.maxRequestSize ≠ cfg.fileSize := fun heq => hdvd (Dvd.intro_left _ heq)
  rw [roundUp_eq_add hM (Dvd.intro_left _ rfl) (lt_of_le_of_ne hle hne) hend.le]
  obtain ⟨outs, s, htr, -, hp, hf, hnext⟩ := hin.exists_position hseq hdvd k hle hM
  obtain ⟨hov, ⟨-, -, -, hfits, -⟩, -⟩ := hin.trace_data hseq htr hnext (by
    rw [hf]
    exact cfg.numFiles_pos.ne)
  rcases mergedRequests_cases cfg with hm | hm
  · simp only [cursorOverflows, hm, decide_true, Bool.true_and, Bool.or_eq_false_iff,
      Bool.not_eq_false'] at hov
    rw [hp] at hov
    exact ⟨hm, (fitsI64_iff.mp hov.1.1).2⟩
  · simp only [cursorRequest, seqSize, hm, lt_irrefl, if_false, hp] at hfits
    rw [← maxRequestSize_unmerged hm] at hfits
    omega

theorem tiled_of_seqInBounds (hseq : cfg.testMode.sequential) (h : SeqInBounds cfg) :
    Tiled cfg := by
  obtain ⟨hpos, hle⟩ := h.first hseq
  have hS : 0 < cfg.fileSize := hpos.trans_le hle
  have hM : 0 < cfg.maxRequestSize := by
    rcases mergedRequests_cases cfg with hm | hm
    · by_contra hneg
      rw [seqSize, if_pos hm, if_pos (by simp only [initVars]; omega)] at hpos
      exact hneg hpos
    · rw [maxRequestSize_unmerged hm]
      exact cfg.blockSize_pos
  refine ⟨hS, fun hm => ⟨hM, ?_⟩, fun hm => ?_⟩
  · by_cases hdvd : cfg.maxRequestSize ∣ cfg.fileSize
    · rw [roundUp_of_dvd hM hdvd]
      exact fileSize_lt cfg
    · exact (h.tail hseq hS hM hdvd).2
  · by_contra hdvd
    rw [← maxRequestSize_unmerged hm] at hdvd
    exact absurd hm (h.tail hseq hS hM hdvd).1.ne'

/-- **Sequential requests stay inside the files exactly when they add up to the size of a file**,
and the largest sum on the way to a tail is a `long long`. -/
theorem seqInBounds_iff (cfg : Config) (hseq : cfg.testMode.sequential) :
    SeqInBounds cfg ↔ 0 < cfg.fileSize ∧
      (0 < cfg.mergedRequests →
        0 < cfg.maxRequestSize ∧ roundUp cfg.fileSize cfg.maxRequestSize < 2 ^ 63) ∧
      (cfg.mergedRequests = 0 → cfg.blockSize ∣ cfg.fileSize) := by
  constructor
  · intro hin
    obtain ⟨hS, hm, hu⟩ := tiled_of_seqInBounds hseq hin
    exact ⟨hS, hm, hu⟩
  · rintro ⟨hS, hm, hu⟩
    exact seqInBounds_of_tiled hseq ⟨hS, hm, hu⟩

/-- A sequential test on one file with the given total and block size and merge factor, the other
options at their defaults. -/
def seqArgs (mode : String) (fileTotalSize fileBlockSize fileMergedRequests : ℕ) : Args :=
  { rndrdArgs 1 fileTotalSize fileBlockSize with
    fileTestMode := some mode
    fileMergedRequests := fileMergedRequests }

/-- What `parse_arguments` makes of them. -/
def seqConfig (mode : TestMode) (T b m : ℕ) (hT : 0 < T ∧ T < 2 ^ 63)
    (hb : 0 < b) : Config :=
  { rndrdConfig 1 T b (by decide) hT hb with
    testMode := mode
    mergedRequests := m
    maxRequestSize := if 0 < (m : ℤ) then toI32 (b * m) else b
    mergedRequests_nonneg := Int.natCast_nonneg m
    maxRequestSize_eq := rfl }

theorem parseArguments_seqArgs {name : String} {mode : TestMode} {T b m : ℕ}
    (hmode : parseTestMode .run (some name) = .ok mode) (hT : 0 < T ∧ T < 2 ^ 63)
    (hb : 0 < b) (hb' : b < 2 ^ 31) :
    parseArguments (seqArgs name T b m) = .ok (seqConfig mode T b m hT hb) := by
  have h1 : toU32 1 = 1 := toU32_of_lt (n := 1) (by norm_num)
  have h2 : toI64 T = T := toI64_of_lt (by omega) (by omega)
  have h3 : toI32 b = b := toI32_of_lt (by omega) (by omega)
  simp only [parseArguments, seqArgs, rndrdArgs, h1, h2, h3, hmode]
  have hr : ¬ (3 / 2 : ℚ) < 0 := by norm_num
  have hm : ¬ (m : ℤ) < 0 := not_lt.mpr (Int.natCast_nonneg m)
  simp [parseIoMode, parseExtraFlags, parseFsyncMode, bind, Except.bind, pure,
    Except.pure, hT.1.ne', hb.ne', hr, hm, seqConfig, rndrdConfig]

/-- Seven blocks of sixteen bytes tile 112 bytes. -/
theorem seqInBounds_sevenBlocks :
    ∃ cfg, parseArguments (seqArgs "seqrd" 112 16 0) = .ok cfg ∧ SeqInBounds cfg := by
  refine ⟨_, parseArguments_seqArgs rfl (by decide) (by decide) (by decide), ?_⟩
  exact (seqInBounds_iff _ rfl).mpr ⟨by decide, fun h => absurd h (by decide), fun _ => ⟨7, rfl⟩⟩

/-- **A hundred bytes in blocks of sixteen**: the seventh request is for bytes 96 to 112, and the
worker that executes it is aborted. -/
theorem seqRequest_past_end :
    ∃ cfg, parseArguments (seqArgs "seqrd" 100 16 0) = .ok cfg ∧ cfg.fileSize = 100 ∧
      (seqStream cfg (unlimited 1) 7 (initVars fun _ => (0, 0))).getLast?
        = some ⟨0, 96, 16, .read⟩ ∧
      checkRequestParameters cfg ⟨0, 96, 16, .read⟩
        = .error "Too large position discovered in request!" ∧ ¬ SeqInBounds cfg := by
  refine ⟨_, parseArguments_seqArgs rfl (by decide) (by decide) (by decide), rfl,
    by decide, rfl, fun h => ?_⟩
  exact absurd ((tiled_of_seqInBounds rfl h).unmerged rfl) (by decide)

end Sysbench.Fileio
