import Sysbench.Fileio.Checksums
import Sysbench.Fileio.Workers

/-!
# Fileio/Validation — reads against the granularity of the trailers

`create_files` stamps one trailer per block; a read request checks one trailer per request.  Their
sizes come from different options: a sequential request may be several blocks or the tail of a file,
and a random one is a block of the *total* size, which need not be a block of its file.  Validation
holds over all runs and all random bytes exactly when the requests are the stamped blocks
(`validates_granular`), except that blocks of twelve bytes have no random bytes to tell the
difference by.
-/

namespace Sysbench.Fileio

/-- A call of the generator with offsets drawn below the total size. -/
def drawnRequest (cfg : Config) (g : Globals) (s : GenState) (c : Call) :
    Option (Option FileRequest × GenState) :=
  if ∀ t ∈ c.draws, 0 ≤ t ∧ t < cfg.totalSize then request cfg g s c else none

/-- **Validation holds**: filling a block stores nothing outside of it, and after `create_files`
every read request of every run that lies inside a file passes, whatever was drawn. -/
structure Validates (cfg : Config) : Prop where
  fill : 0 < cfg.fileSize → ∀ fuel draw buf offset,
    ∀ w ∈ (fileFillBuffer fuel draw buf (toU32 cfg.blockSize) offset).1, w.1 < cfg.blockSize
  read : ∀ draws buf, ∃ files, createFiles cfg draws buf = some files ∧
    ∀ g perThread outs s, g.validate = true →
      Trace (drawnRequest cfg g) (initVars perThread) outs s →
      ∀ r, some r ∈ outs → r.operation = .read → InBounds cfg r →
        ∀ buf, readPasses cfg files buf r

/-- **The requests are the stamped blocks.**  A block has room for its trailer and a buffer for a
block, and all blocks together are within `long long`; merged requests are blocks all the same; and
a random block that fits in its file is at a block of the file. -/
structure Granular (cfg : Config) : Prop where
  trailer : 12 ≤ cfg.blockSize
  buffer : cfg.blockSize ≤ cfg.maxRequestSize
  room : FilesRoom cfg
  merged : cfg.testMode = .read → 0 < cfg.mergedRequests →
    cfg.blockSize ∣ cfg.fileSize ∧
      (cfg.fileSize = cfg.blockSize ∨ cfg.maxRequestSize = cfg.blockSize)
  random : cfg.testMode = .rndRead → ∀ j : ℤ, 0 ≤ j → cfg.blockSize * j < cfg.totalSize →
    toU32 (cfg.blockSize * j / cfg.fileSize) < cfg.numFiles →
    cfg.blockSize * j % cfg.fileSize + cfg.blockSize ≤ cfg.fileSize →
    cfg.blockSize ∣ cfg.blockSize * j % cfg.fileSize

variable {a : Args} {cfg : Config} {g : Globals} {s : GenState} {r : FileRequest}

theorem Stored.maxRequestSize_lt (h : Stored a cfg) : cfg.maxRequestSize < 2 ^ 31 := by
  rw [cfg.maxRequestSize_eq]
  split_ifs
  · exact toI32_lt _
  · exact h.blockSize_lt

theorem bufferSize_lt (h : Stored a cfg) : bufferSize cfg < 2 ^ 31 := by
  have := h.maxRequestSize_lt
  unfold bufferSize
  omega

/-! ## Requests for blocks -/

/-- The sequential cursor stands at a block, and with merging inside a file. -/
def AtBlockStart (cfg : Config) (s : GenState) : Prop :=
  cfg.blockSize ∣ s.position ∧
    (0 < cfg.mergedRequests → 0 ≤ s.position ∧ s.position < cfg.fileSize)

theorem atBlockStart_zero (hS : 0 < cfg.fileSize) (hp : s.position = 0) : AtBlockStart cfg s := by
  rw [AtBlockStart, hp]
  exact ⟨dvd_zero _, fun _ => ⟨le_rfl, hS⟩⟩

theorem rewind_atBlockStart (hS : 0 < cfg.fileSize) (h : AtBlockStart cfg s) :
    AtBlockStart cfg (rewind cfg s) := by
  unfold rewind
  split_ifs
  · exact atBlockStart_zero hS rfl
  · exact h

/-- **A request at a block is for one block.** -/
theorem seqSize_eq_block (hG : Granular cfg) (hmode : cfg.testMode = .read)
    (h : AtBlockStart cfg s) : seqSize cfg s = cfg.blockSize := by
  unfold seqSize
  split_ifs with hm hle
  · -- a merged request that fits in the file
    obtain ⟨hdvd, hone | hmax⟩ := hG.merged hmode hm
    · have := h.2 hm
      have := hG.buffer
      omega
    · exact hmax
  · -- a merged request that is cut at the end of the file
    obtain ⟨hdvd, hone | hmax⟩ := hG.merged hmode hm
    · have hpos := h.2 hm
      have hzero := Int.eq_zero_of_dvd_of_nonneg_of_lt hpos.1 (hone ▸ hpos.2) h.1
      omega
    · have hpos := h.2 hm
      have hrest := Int.le_of_dvd (by omega) (hdvd.sub h.1)
      omega
  · rfl

theorem advance_atBlockStart (hG : Granular cfg) (hmode : cfg.testMode = .read)
    (hS : 0 < cfg.fileSize) (h : AtBlockStart cfg s) :
    AtBlockStart cfg (advance cfg cfg.blockSize s) := by
  unfold advance
  split_ifs with hend
  · exact atBlockStart_zero hS rfl
  · refine ⟨h.1.add dvd_rfl, fun hm => ?_⟩
    have hpos := h.2 hm
    have hrest := Int.le_of_dvd (by omega) ((hG.merged hmode hm).1.sub h.1)
    have hb := cfg.blockSize_pos
    change 0 ≤ s.position + cfg.blockSize ∧ s.position + cfg.blockSize < cfg.fileSize
    omega

theorem checkOrder_position : (checkOrder cfg g r s).position = s.position := by
  unfold checkOrder
  split <;> rfl

/-- In read mode there are no fsyncs. -/
theorem fileGetSeqRequest_read (hmode : cfg.testMode = .read) (g : Globals) (s : GenState) :
    fileGetSeqRequest cfg g s = if limitReached g s then (none, s) else seqData cfg g s := by
  have hop : seqOp cfg = .read := by simp [seqOp, hmode]
  simp [fileGetSeqRequest, hop, endRequest]

/-- **One call of the sequential generator in read mode.** -/
theorem fileGetSeqRequest_block (hG : Granular cfg) (hmode : cfg.testMode = .read)
    (hS : 0 < cfg.fileSize) (h : AtBlockStart cfg s) :
    (∀ r, (fileGetSeqRequest cfg g s).1 = some r →
      r.size = cfg.blockSize ∧ cfg.blockSize ∣ r.pos) ∧
      AtBlockStart cfg (fileGetSeqRequest cfg g s).2 := by
  rw [fileGetSeqRequest_read hmode]
  split_ifs
  · refine ⟨fun r hr => ?_, h⟩
    cases hr
  · have hrew : AtBlockStart cfg (rewind cfg (countRequest (seqOp cfg) s)) :=
      rewind_atBlockStart hS h
    have hsize := seqSize_eq_block hG hmode hrew
    refine ⟨fun r hr => ?_, ?_⟩
    · obtain rfl := Option.some.inj hr
      exact ⟨hsize, hrew.1⟩
    · have hnext := advance_atBlockStart hG hmode hS hrew
      simp only [seqData, AtBlockStart, checkOrder_position, hsize]
      exact hnext

/-- A random request that lies inside a file is for a block of the file. -/
theorem rndRequest_block (h : Stored a cfg) (hG : Granular cfg) (hmode : cfg.testMode = .rndRead)
    {c : Call} {s' : GenState} (hdraws : ∀ t ∈ c.draws, 0 ≤ t ∧ t < cfg.totalSize)
    (hr : fileGetRndRequest cfg g c.threadId c.draws s = .ok (some r, s')) (hdata : r.isData)
    (hin : InBounds cfg r) : r.size = cfg.blockSize ∧ cfg.blockSize ∣ r.pos := by
  obtain ⟨t, ht, hblock, hsize⟩ := rndRequest_data hr hdata
  obtain ⟨ht₀, htlt⟩ := hdraws t ht
  obtain ⟨hfile, hpos, hend, -⟩ := hin
  rw [hsize] at hend
  have hb := cfg.blockSize_pos
  have hround : t - t % cfg.blockSize = cfg.blockSize * (t / cfg.blockSize) := by
    have := Int.mul_ediv_add_emod t cfg.blockSize
    omega
  have hmod := Int.emod_nonneg t hb.ne'
  rw [rndBlock_eq h (by omega) ht₀ htlt, hround, Except.ok.injEq, Prod.mk.injEq] at hblock
  obtain ⟨hf, hp⟩ := hblock
  refine ⟨hsize, ?_⟩
  rw [← hp]
  refine hG.random hmode (t / cfg.blockSize) (Int.ediv_nonneg ht₀ hb.le) (by omega) ?_ ?_
  · rw [hf]
    exact hfile
  · rw [hp]
    exact hend

/-- **Every read request of a run that lies inside a file is for a block of the file.** -/
theorem block_of_trace (h : Stored a cfg) (hG : Granular cfg) (hS : 0 < cfg.fileSize)
    (hmode : cfg.testMode = .read ∨ cfg.testMode = .rndRead) {perThread : ℕ → ℕ × ℤ}
    {outs : List (Option FileRequest)}
    (htr : Trace (drawnRequest cfg g) (initVars perThread) outs s) :
    ∀ r, some r ∈ outs → r.operation = .read → InBounds cfg r →
      r.size = cfg.blockSize ∧ cfg.blockSize ∣ r.pos := by
  refine (htr.invariant (fun outs s => (∀ r, some r ∈ outs → r.operation = .read → InBounds cfg r →
    r.size = cfg.blockSize ∧ cfg.blockSize ∣ r.pos) ∧ (cfg.testMode = .read → AtBlockStart cfg s))
    ⟨by simp, fun _ => atBlockStart_zero hS rfl⟩ ?_).1
  intro outs s c o s' ⟨hall, hs⟩ hstep
  unfold drawnRequest at hstep
  split_ifs at hstep with hdraws
  rcases hmode with hmode | hmode
  · obtain ⟨hr, hs'⟩ := fileGetSeqRequest_block (g := g)
      (s := { s with readOps := c.readOps, writeOps := c.writeOps }) hG hmode hS (hs hmode)
    rw [request_seq_eq (by rw [hmode]; rfl) hstep] at hr hs'
    refine ⟨fun r hmem hop hin => ?_, fun _ => hs'⟩
    rcases List.mem_append.mp hmem with hmem | hmem
    · exact hall r hmem hop hin
    · exact hr r (List.mem_singleton.mp hmem).symm
  · have hreq := request_rnd (by rw [hmode]; rfl) hstep
    refine ⟨fun r hmem hop hin => ?_, fun hread => absurd (hread.symm.trans hmode) (by simp)⟩
    rcases List.mem_append.mp hmem with hmem | hmem
    · exact hall r hmem hop hin
    · obtain rfl := List.mem_singleton.mp hmem
      exact rndRequest_block h hG hmode hdraws hreq (by simp [FileRequest.isData, hop]) hin

/-- Without merging, every request for data is for a block's number of bytes. -/
theorem size_of_trace (hmode : cfg.testMode = .read ∨ cfg.testMode = .rndRead)
    (hm : cfg.testMode = .read → cfg.mergedRequests = 0) {perThread : ℕ → ℕ × ℤ}
    {outs : List (Option FileRequest)}
    (htr : Trace (drawnRequest cfg g) (initVars perThread) outs s) :
    ∀ r, some r ∈ outs → r.operation = .read → r.size = cfg.blockSize := by
  refine htr.invariant (fun outs _ => ∀ r, some r ∈ outs → r.operation = .read →
    r.size = cfg.blockSize) (by simp) ?_
  intro outs s c o s' hall hstep r hmem hop
  rcases List.mem_append.mp hmem with hmem | hmem
  · exact hall r hmem hop
  obtain rfl := List.mem_singleton.mp hmem
  unfold drawnRequest at hstep
  split_ifs at hstep
  rcases hmode with hmode | hmode
  · have hr := congrArg Prod.fst (request_seq_eq (by rw [hmode]; rfl) hstep)
    rw [fileGetSeqRequest_read hmode] at hr
    split_ifs at hr
    obtain rfl := Option.some.inj hr
    change seqSize cfg _ = cfg.blockSize
    rw [seqSize, if_neg (hm hmode).not_gt]
  · have hreq := request_rnd (by rw [hmode]; rfl) hstep
    obtain ⟨-, -, -, hsize⟩ := rndRequest_data hreq (by simp [FileRequest.isData, hop])
    exact hsize

/-! ## Blocks pass -/

/-- Files without bytes are created without filling anything. -/
theorem createFiles_empty (hS : cfg.fileSize = 0) (draws : ℕ → ℕ → ℕ → Byte) (buf : Memory) :
    ∃ files, createFiles cfg draws buf = some files := by
  have hloop : ∀ (is : List ℕ) (written : ℕ) (buf : Memory) (files : ℕ → DataFile),
      ∃ files', createFilesFrom cfg draws is written buf files = some files' := by
    intro is
    induction is with
    | nil => exact fun _ buf files => ⟨files, rfl⟩
    | cons i is ih =>
      intro written buf files
      have hfile : createFile cfg (draws i) 0 written buf ⟨fun _ => 0, 0⟩
          = some (written, buf, ⟨fun _ => 0, 0⟩) := by
        rw [createFile, hS]
        rfl
      rw [createFilesFrom, hfile]
      exact ih _ _ _
  exact hloop _ _ _ _

/-- **Requests for the stamped blocks pass.** -/
theorem validates_of_granular (h : Stored a cfg) (hS : 0 < cfg.fileSize)
    (hmode : cfg.testMode = .read ∨ cfg.testMode = .rndRead) (hG : Granular cfg) :
    Validates cfg := by
  obtain ⟨b, hb⟩ := Int.eq_ofNat_of_zero_le cfg.blockSize_pos.le
  have hlo : 12 ≤ b := by have := hG.trailer; omega
  have hhi : b < 2 ^ 31 := by have := h.blockSize_lt; omega
  have hcap : b ≤ bufferSize cfg := by
    have := hG.buffer
    unfold bufferSize
    omega
  refine ⟨fun _ fuel draw buf offset w hw => ?_, fun draws buf => ?_⟩
  · rw [hb, toU32_of_lt (by omega)] at hw
    rw [hb]
    exact_mod_cast fileFillBuffer_inside hlo (by omega) w hw
  · obtain ⟨files, hfiles, hstamped⟩ := createFiles_stamped hb hlo hhi hcap hG.room draws buf
    refine ⟨files, hfiles, fun g perThread outs s _ htr r hr hop hin buf => ?_⟩
    obtain ⟨hfile, hp, hend, -⟩ := id hin
    obtain ⟨hsize, hdvd⟩ := block_of_trace h hG hS hmode htr r hr hop hin
    obtain ⟨p, hpos'⟩ := Int.eq_ofNat_of_zero_le hp
    have hlt := fileSize_lt cfg
    rw [hb] at hsize hdvd
    rw [hpos'] at hdvd
    exact readPasses_of_block hlo hhi hcap (hstamped _ hfile) hsize hpos'
      (Int.natCast_dvd_natCast.mp hdvd) (by omega) hend

/-! ## Only blocks pass -/

/-- Where validation holds, a request of a run moves at least a byte. -/
theorem size_pos_of_validates (h : Stored a cfg) (hV : Validates cfg) (hg : g.validate = true)
    {perThread : ℕ → ℕ × ℤ} {outs : List (Option FileRequest)}
    (htr : Trace (drawnRequest cfg g) (initVars perThread) outs s) (hr : some r ∈ outs)
    (hop : r.operation = .read) (hin : InBounds cfg r) : 0 < r.size := by
  by_contra hneg
  obtain ⟨files, -, hall⟩ := hV.read (fun _ _ _ => 0) fun _ => 0
  exact not_readPasses_of_nonpos (bufferSize_lt h) (not_lt.mp hneg)
    (hall g perThread outs s hg htr r hr hop hin fun _ => 0)

/-- **Where validation holds, a request of a run is for a block of its file.** -/
theorem block_of_validates (h : Stored a cfg) (hV : Validates cfg) (hlo : 13 ≤ cfg.blockSize)
    (hg : g.validate = true) {perThread : ℕ → ℕ × ℤ} {outs : List (Option FileRequest)}
    (htr : Trace (drawnRequest cfg g) (initVars perThread) outs s) (hr : some r ∈ outs)
    (hop : r.operation = .read) (hin : InBounds cfg r) :
    r.size = cfg.blockSize ∧ cfg.blockSize ∣ r.pos := by
  have hsize := size_pos_of_validates h hV hg htr hr hop hin
  obtain ⟨b, hb⟩ := Int.eq_ofNat_of_zero_le cfg.blockSize_pos.le
  obtain ⟨n, hn⟩ := Int.eq_ofNat_of_zero_le hsize.le
  obtain ⟨hfile, hp₀, hend, -⟩ := id hin
  obtain ⟨p, hp⟩ := Int.eq_ofNat_of_zero_le hp₀
  have hS := fileSize_lt cfg
  have hhi := h.blockSize_lt
  rw [hn, hb, hp, Int.natCast_dvd_natCast, Nat.cast_inj]
  by_contra hne
  obtain ⟨draws, hfail⟩ := exists_not_readPasses (by omega) (bufferSize_lt h) hn hp (by omega)
    hend hne
  obtain ⟨files, hfiles, hall⟩ := hV.read (fun _ => draws) fun _ => 0
  have hcap := le_bufferSize_of_createFiles hb (by omega) (by omega) (by omega) hfiles
  have hroom := filesRoom_of_createFiles hfiles
  obtain ⟨files', hfiles', hstamped⟩ := createFiles_stamped hb (by omega) (by omega) hcap hroom
    (fun _ => draws) fun _ => 0
  obtain rfl := Option.some.inj (hfiles.symm.trans hfiles')
  exact hfail files (fun _ => 0) (hstamped _ hfile)
    (hall g perThread outs s hg htr r hr hop hin _)

/-- A sequential read, in a run without a limit. -/
theorem drawnRequest_seq (hmode : cfg.testMode = .read) (hfile : s.currentFile ≠ cfg.numFiles)
    (hov : cursorOverflows cfg s = false) :
    ∃ s', drawnRequest cfg (validating 1) s ⟨0, [], s.readOps, s.writeOps⟩
        = some (some ⟨s.currentFile, s.position, seqSize cfg s, .read⟩, s') ∧
      s'.position = (advance cfg (seqSize cfg s) s).position ∧
      s'.currentFile = (advance cfg (seqSize cfg s) s).currentFile := by
  have hop : seqOp cfg = .read := by simp [seqOp, hmode]
  have hdata : drawnRequest cfg (validating 1) s ⟨0, [], s.readOps, s.writeOps⟩
      = some (seqData cfg (validating 1) s) := by
    have hov : seqOverflows cfg (validating 1) s = false := by
      simp [seqOverflows, rewind, hfile, hov]
    rw [drawnRequest, if_pos (by simp), request_seq (by rw [hmode]; rfl), hov]
    simp [fileGetSeqRequest, limitReached, validating, hop]
  refine ⟨(seqData cfg (validating 1) s).2, hdata.trans (congrArg some (Prod.ext ?_ rfl)), ?_⟩
  · simp [seqData, rewind, hfile, countRequest, seqSize, hop]
  · simp only [seqData, rewind, countRequest, hfile, if_false, checkOrder, validating, if_true,
      advance, seqSize]
    split_ifs <;> exact ⟨rfl, rfl⟩

/-- Requests of one block that do not tile the file get to its tail. -/
theorem exists_tail (hmode : cfg.testMode = .read) (hm : 0 < cfg.mergedRequests)
    (hmax : cfg.maxRequestSize = cfg.blockSize) (hdvd : ¬ cfg.blockSize ∣ cfg.fileSize) (k : ℕ)
    (hk : k * cfg.blockSize ≤ cfg.fileSize) :
    ∃ outs s, Trace (drawnRequest cfg (validating 1)) (initVars fun _ => (0, 0)) outs s ∧
      s.position = k * cfg.blockSize ∧ s.currentFile = 0 := by
  induction k with
  | zero => exact ⟨[], _, .nil, by simp [initVars], rfl⟩
  | succ k ih =>
    have hsucc : ((k + 1 : ℕ) : ℤ) * cfg.blockSize = k * cfg.blockSize + cfg.blockSize := by
      push_cast
      ring
    rw [hsucc] at hk
    have hb := cfg.blockSize_pos
    obtain ⟨outs, s, htr, hp, hf⟩ := ih (by omega)
    have hS := fileSize_lt cfg
    have hk₀ : (0 : ℤ) ≤ k * cfg.blockSize := by positivity
    obtain ⟨s', hcall, hp', hf'⟩ := drawnRequest_seq (s := s) hmode
      (by rw [hf]; exact cfg.numFiles_pos.ne)
      (cursorOverflows_of_lt (by omega) (by omega) (by rw [hmax]; omega))
    have hsize : seqSize cfg s = cfg.blockSize := by
      rw [seqSize, if_pos hm, hp, hmax, if_pos hk]
    have hne : s.position + cfg.blockSize ≠ cfg.fileSize := fun heq =>
      hdvd ⟨k + 1, by rw [← heq, hp]; ring⟩
    rw [hsize, advance, if_neg hne] at hp' hf'
    refine ⟨_, s', htr.snoc hcall, ?_, hf'.trans hf⟩
    rw [hp', hp, hsucc]

/-- A request at the cursor of a run, in the first file, is a block. -/
theorem seqSize_of_validates (h : Stored a cfg) (hV : Validates cfg) (hlo : 13 ≤ cfg.blockSize)
    (hmode : cfg.testMode = .read)
    (htr : Trace (drawnRequest cfg (validating 1)) (initVars fun _ => (0, 0)) outs s)
    (hf : s.currentFile = 0) (hp : 0 ≤ s.position) (hle : s.position ≤ cfg.fileSize)
    (hadd : s.position + cfg.maxRequestSize < 2 ^ 63)
    (hend : s.position + seqSize cfg s ≤ cfg.fileSize) : seqSize cfg s = cfg.blockSize := by
  have hfile : s.currentFile < cfg.numFiles := by
    rw [hf]
    exact cfg.numFiles_pos
  obtain ⟨s', hcall, -⟩ := drawnRequest_seq hmode hfile.ne (cursorOverflows_of_lt hp hle hadd)
  exact (block_of_validates (r := ⟨s.currentFile, s.position, seqSize cfg s, .read⟩) h hV hlo rfl
    (htr.snoc hcall) (List.mem_append_right _ (List.mem_singleton_self _)) rfl
    (inBounds_of_lt hfile hp hend)).1

/-- With requests of one block there is no tail: its request would be shorter. -/
theorem dvd_of_validates (h : Stored a cfg) (hV : Validates cfg) (hS : 0 < cfg.fileSize)
    (hlo : 13 ≤ cfg.blockSize) (hroom : roundUp cfg.fileSize cfg.blockSize < 2 ^ 63)
    (hmode : cfg.testMode = .read) (hm : 0 < cfg.mergedRequests)
    (hmax : cfg.maxRequestSize = cfg.blockSize) : cfg.blockSize ∣ cfg.fileSize := by
  by_contra hdvd
  have hb := cfg.blockSize_pos
  have hmod := Int.emod_pos_of_not_dvd hdvd
  have hlt := Int.emod_lt_of_pos cfg.fileSize hb
  have hsum := Int.mul_ediv_add_emod cfg.fileSize cfg.blockSize
  obtain ⟨k, hk⟩ := Int.eq_ofNat_of_zero_le (Int.ediv_nonneg hS.le hb.le)
  rw [hk, mul_comm] at hsum
  obtain ⟨outs, s, htr, hp, hf⟩ := exists_tail hmode hm hmax hdvd k (by omega)
  have hp₀ : 0 ≤ s.position := by
    rw [hp]
    positivity
  have htail : seqSize cfg s = cfg.fileSize % cfg.blockSize := by
    rw [seqSize, if_pos hm, if_neg (by omega), hp]
    omega
  have hnext : s.position + cfg.blockSize ≤ roundUp cfg.fileSize cfg.blockSize :=
    add_le_roundUp hb (hp ▸ Dvd.intro_left _ rfl) (by omega)
  have hsize := seqSize_of_validates h hV hlo hmode htr hf hp₀ (by omega) (by omega) (by omega)
  omega

/-- Merged requests are blocks. -/
theorem merged_of_validates (h : Stored a cfg) (hV : Validates cfg) (hS : 0 < cfg.fileSize)
    (hlo : 13 ≤ cfg.blockSize) (hroom : FilesRoom cfg)
    (hmode : cfg.testMode = .read) (hm : 0 < cfg.mergedRequests) :
    cfg.blockSize ∣ cfg.fileSize ∧
      (cfg.fileSize = cfg.blockSize ∨ cfg.maxRequestSize = cfg.blockSize) := by
  have hmax_lt := h.maxRequestSize_lt
  have hfirst := seqSize_of_validates h hV hlo hmode .nil rfl le_rfl hS.le
    (by simp only [initVars]; omega)
  simp only [seqSize, if_pos hm, initVars, zero_add, sub_zero] at hfirst
  rcases le_or_gt cfg.maxRequestSize cfg.fileSize with hle | hgt
  · rw [if_pos hle] at hfirst
    have hmax := hfirst hle
    exact ⟨dvd_of_validates h hV hS hlo hroom.roundUp_lt hmode hm hmax, .inr hmax⟩
  · rw [if_neg (by omega)] at hfirst
    have hone := hfirst le_rfl
    exact ⟨by rw [hone], .inl hone⟩

/-- Random requests that fit in their file are blocks of it. -/
theorem random_of_validates (h : Stored a cfg) (hV : Validates cfg) (hS : 0 < cfg.fileSize)
    (hlo : 13 ≤ cfg.blockSize) (hmode : cfg.testMode = .rndRead) {j : ℤ} (hj : 0 ≤ j)
    (hlt : cfg.blockSize * j < cfg.totalSize)
    (hfile : toU32 (cfg.blockSize * j / cfg.fileSize) < cfg.numFiles)
    (hfit : cfg.blockSize * j % cfg.fileSize + cfg.blockSize ≤ cfg.fileSize) :
    cfg.blockSize ∣ cfg.blockSize * j % cfg.fileSize := by
  have hb := cfg.blockSize_pos
  have hnn : 0 ≤ cfg.blockSize * j := mul_nonneg hb.le hj
  have hcall : ∃ s', drawnRequest cfg (validating 1) (initVars fun _ => (0, 0))
      ⟨0, [cfg.blockSize * j], 0, 0⟩
        = some (some ⟨toU32 (cfg.blockSize * j / cfg.fileSize), cfg.blockSize * j % cfg.fileSize,
          cfg.blockSize, .read⟩, s') := by
    rw [drawnRequest, if_pos (by simpa using ⟨hnn, hlt⟩)]
    simp [request, fileGetRequest, hmode, TestMode.sequential, fileGetRndRequest, limitReached,
      validating, fsyncDue, initVars, rndData, rndRetry, rndBlock_mul h hS hj hlt, blockTaken,
      bind, Except.bind, pure, Except.pure, Except.toOption, rndOp]
  obtain ⟨s', hcall⟩ := hcall
  exact (block_of_validates h hV hlo rfl (Trace.snoc .nil hcall)
    (List.mem_singleton_self _) rfl
    (inBounds_of_lt hfile (Int.emod_nonneg _ hS.ne') hfit)).2

/-- **Validation that holds means that the requests are the stamped blocks**, as soon as a block has
random bytes. -/
theorem granular_of_validates (h : Stored a cfg) (hS : 0 < cfg.fileSize)
    (hlen : cfg.blockSize ≠ 12) (hV : Validates cfg) : Granular cfg := by
  obtain ⟨b, hb⟩ := Int.eq_ofNat_of_zero_le cfg.blockSize_pos.le
  have hhi := h.blockSize_lt
  have hlo : 12 ≤ cfg.blockSize := by
    by_contra hlt
    obtain ⟨w, hw, hwb⟩ := exists_fileFillBuffer_outside (fun _ => 0) (fun _ => 0) 0
      (show b < 12 by omega)
    have := hV.fill hS (b + 1) (fun _ => 0) (fun _ => 0) 0 w (by
      rw [hb, toU32_of_lt (by omega)]
      exact hw)
    omega
  obtain ⟨files, hfiles, -⟩ := hV.read (fun _ _ _ => 0) fun _ => 0
  have hcap := le_bufferSize_of_createFiles hb (by omega) (by omega) hS hfiles
  have hbuffer : cfg.blockSize ≤ cfg.maxRequestSize := by
    unfold bufferSize at hcap
    have := cfg.blockSize_pos
    omega
  have hroom := filesRoom_of_createFiles hfiles
  exact ⟨hlo, hbuffer, hroom, fun hmode hm => merged_of_validates h hV hS (by omega) hroom hmode hm,
    fun hmode j hj hlt hfile hfit =>
      random_of_validates h hV hS (by omega) hmode hj hlt hfile hfit⟩

/-- Over files without bytes, no request of a whole block lies inside of them. -/
theorem validates_empty (hS : cfg.fileSize = 0)
    (hmode : cfg.testMode = .read ∨ cfg.testMode = .rndRead)
    (hm : cfg.testMode = .read → cfg.mergedRequests = 0) : Validates cfg := by
  refine ⟨fun hpos => absurd hS hpos.ne', fun draws buf => ?_⟩
  obtain ⟨files, hfiles⟩ := createFiles_empty hS draws buf
  refine ⟨files, hfiles, fun g perThread outs s _ htr r hr hop hin => ?_⟩
  have hsize := size_of_trace hmode hm htr r hr hop
  have hb := cfg.blockSize_pos
  obtain ⟨-, hp, hend, -⟩ := hin
  omega

/-- A merged request over files without bytes is for no byte, lies inside, and does not pass. -/
theorem unmerged_of_validates (h : Stored a cfg) (hV : Validates cfg) (hS : cfg.fileSize = 0)
    (hmode : cfg.testMode = .read) : cfg.mergedRequests = 0 := by
  refine (mergedRequests_cases cfg).resolve_left fun hm => ?_
  have hmax := h.maxRequestSize_lt
  obtain ⟨s', hcall, -⟩ := drawnRequest_seq (s := initVars fun _ => (0, 0)) hmode
    cfg.numFiles_pos.ne (cursorOverflows_of_lt le_rfl hS.ge (by simp only [initVars]; omega))
  have hsize : seqSize cfg (initVars fun _ => (0, 0)) ≤ 0 := by
    rw [seqSize, if_pos hm, hS]
    split_ifs with hle
    · simpa [initVars] using hle
    · simp [initVars]
  refine absurd (size_pos_of_validates (g := validating 1) h hV rfl (Trace.snoc .nil hcall)
    (List.mem_singleton_self _) rfl ?_) (not_lt.mpr hsize)
  refine inBounds_of_lt cfg.numFiles_pos le_rfl ?_
  rw [hS]
  simpa [initVars] using hsize

/-- **Validation holds when the requests are the stamped blocks, and only then**: for every accepted
setting of a sequential or random read test, all runs and all random bytes.  A block of twelve bytes
is all trailer, and for that size only the first half is claimed. -/
theorem validates_granular (h : parseArguments a = .ok cfg)
    (hmode : cfg.testMode = .read ∨ cfg.testMode = .rndRead) :
    (cfg.fileSize = 0 ∧ (cfg.testMode = .read → cfg.mergedRequests = 0) ∨
        0 < cfg.fileSize ∧ Granular cfg → Validates cfg) ∧
      (cfg.blockSize ≠ 12 → Validates cfg →
        cfg.fileSize = 0 ∧ (cfg.testMode = .read → cfg.mergedRequests = 0) ∨
          0 < cfg.fileSize ∧ Granular cfg) := by
  have hst := stored_of_parseArguments h
  refine ⟨?_, fun hlen hV => ?_⟩
  · rintro (⟨hS, hm⟩ | ⟨hS, hG⟩)
    · exact validates_empty hS hmode hm
    · exact validates_of_granular hst hS hmode hG
  · rcases (fileSize_nonneg cfg).eq_or_lt with hS | hS
    · exact Or.inl ⟨hS.symm, unmerged_of_validates hst hV hS.symm⟩
    · exact Or.inr ⟨hS, granular_of_validates hst hS hlen hV⟩

/-- Four blocks of sixteen bytes, read one by one. -/
theorem validates_fourBlocks :
    ∃ cfg, parseArguments (seqArgs "seqrd" 64 16 0) = .ok cfg ∧ Validates cfg := by
  have hparse : parseArguments (seqArgs "seqrd" 64 16 0)
      = .ok (seqConfig .read 64 16 0 (by decide) (by decide)) :=
    parseArguments_seqArgs rfl (by decide) (by decide) (by decide)
  refine ⟨_, hparse, (validates_granular hparse (Or.inl rfl)).1 (Or.inr ⟨by decide, ?_⟩)⟩
  exact ⟨by decide, by decide, by decide, fun _ hm => absurd hm (by decide),
    fun hmode => (nomatch hmode)⟩

/-- **Two blocks in one request**: the first request reads a whole file of two blocks of 32 bytes,
and finds the trailer of the second one, whatever was drawn. -/
theorem mergedRead_fails :
    ∃ cfg, parseArguments (seqArgs "seqrd" 64 32 2) = .ok cfg ∧
      (seqStream cfg (validating 1) 1 (initVars fun _ => (0, 0))).head? = some ⟨0, 0, 64, .read⟩ ∧
      (∀ draws buf, ∃ files, createFiles cfg draws buf = some files ∧
        ∀ buf, ¬ readPasses cfg files buf ⟨0, 0, 64, .read⟩) ∧ ¬ Validates cfg := by
  have hparse : parseArguments (seqArgs "seqrd" 64 32 2)
      = .ok (seqConfig .read 64 32 2 (by decide) (by decide)) :=
    parseArguments_seqArgs rfl (by decide) (by decide) (by decide)
  have hb : (seqConfig .read 64 32 2 (by decide) (by decide)).blockSize = (32 : ℕ) := rfl
  refine ⟨_, hparse, by decide, fun draws buf => ?_, fun hV => ?_⟩
  · obtain ⟨files, hfiles, hstamped⟩ := createFiles_stamped hb (by decide) (by decide) (by decide)
      (by decide) draws buf
    refine ⟨files, hfiles, fun buf hpass => ?_⟩
    have := block_of_readPasses (n := 64) (p := 0) (by decide) (by decide) (hstamped 0 (by decide))
      rfl rfl (by decide) (by decide) (by decide) hpass
    omega
  · have hG := granular_of_validates (stored_of_parseArguments hparse) (by decide) (by decide) hV
    exact absurd (hG.merged rfl (by decide)).2 (by decide)

end Sysbench.Fileio
