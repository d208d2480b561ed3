import Sysbench.Fileio.Requests

/-!
# Fileio/RandomBounds — where the random generator lands

The random generator rounds an offset of the *total* size down to a block and splits it by the
size of *one* file.  The two divisions agree exactly when the files tile the total size and the
blocks tile a file, i.e. when `num_files * file_block_size` divides `file_total_size`
(`rndInBounds_iff`).  Otherwise either a block sticks out of its file, or the remainder of the
total size is taken for a file past the last one.
-/

namespace Sysbench.Fileio

variable {a : Args} {cfg : Config}

/-- A request `file_execute_request` carries out inside an existing file. -/
def InBounds (cfg : Config) (r : FileRequest) : Prop :=
  r.fileId < cfg.numFiles ∧ 0 ≤ r.pos ∧ r.pos + r.size ≤ cfg.fileSize ∧
    checkRequestParameters cfg r = .ok r.fileId

/-- **Every call on offsets of the total size stays inside the files**: no division by zero, and
each data request it answers is in bounds. -/
def RndInBounds (cfg : Config) : Prop :=
  ∀ (g : Globals) (threadId : ℕ) (draws : List ℤ) (s : GenState),
    (∀ t ∈ draws, 0 ≤ t ∧ t < cfg.totalSize) →
      fileGetRndRequest cfg g threadId draws s ≠ .error .zeroDivide ∧
      ∀ r s', fileGetRndRequest cfg g threadId draws s = .ok (some r, s') → r.isData →
        InBounds cfg r

/-! ## The block of an offset -/

theorem fileSize_nonneg (cfg : Config) : 0 ≤ cfg.fileSize := by
  rw [cfg.fileSize_eq]
  exact Int.ediv_nonneg cfg.totalSize_pos.le (Int.natCast_nonneg _)

theorem numFiles_mul_fileSize_le (cfg : Config) : cfg.numFiles * cfg.fileSize ≤ cfg.totalSize := by
  rw [cfg.fileSize_eq]
  exact Int.mul_ediv_self_le (by exact_mod_cast cfg.numFiles_pos.ne')

theorem fileSize_le_totalSize (cfg : Config) : cfg.fileSize ≤ cfg.totalSize := by
  have h := numFiles_mul_fileSize_le cfg
  have hn : (1 : ℤ) ≤ cfg.numFiles := by exact_mod_cast cfg.numFiles_pos
  nlinarith [fileSize_nonneg cfg]

theorem fileSize_lt (cfg : Config) : cfg.fileSize < 2 ^ 63 :=
  (fileSize_le_totalSize cfg).trans_lt cfg.totalSize_lt

/-- On an offset of the total size no conversion loses anything but the file number's. -/
theorem rndBlock_eq (h : Stored a cfg) (hS : 0 < cfg.fileSize) {t : ℤ} (ht : 0 ≤ t)
    (ht' : t < cfg.totalSize) :
    rndBlock cfg t = .ok (toU32 ((t - t % cfg.blockSize) / cfg.fileSize),
      (t - t % cfg.blockSize) % cfg.fileSize) := by
  have hT := cfg.totalSize_lt
  have hb := h.blockSize_lt
  have hS' := fileSize_le_totalSize cfg
  obtain ⟨t, rfl⟩ := Int.eq_ofNat_of_zero_le ht
  obtain ⟨b, hb'⟩ := Int.eq_ofNat_of_zero_le cfg.blockSize_pos.le
  obtain ⟨S, hS''⟩ := Int.eq_ofNat_of_zero_le hS.le
  rw [hS''] at hS hS'
  rw [hb'] at hb
  have hle : t % b ≤ t := Nat.mod_le t b
  have hlt : (t - t % b) % S < S := Nat.mod_lt _ (by omega)
  unfold rndBlock
  rw [hb', hS'', toU64_of_lt (by omega), toU64_of_lt (by omega), toU64_of_lt (by omega),
    if_neg (by omega), toU32_toI32, toI64_of_lt (by omega) (by omega)]
  push_cast [Nat.cast_sub hle]
  rfl

/-! ## The files and the blocks tile the total size -/

/-- The tiling, as one number: `c` blocks to a file. -/
theorem exists_blocks_of_dvd (hdvd : cfg.numFiles * cfg.blockSize ∣ cfg.totalSize) :
    ∃ c, 0 < c ∧ cfg.fileSize = cfg.blockSize * c ∧
      cfg.totalSize = cfg.numFiles * (cfg.blockSize * c) := by
  obtain ⟨c, hc⟩ := hdvd
  have hn : (0 : ℤ) < cfg.numFiles := by exact_mod_cast cfg.numFiles_pos
  have hT : cfg.totalSize = cfg.numFiles * (cfg.blockSize * c) := by rw [hc]; ring
  refine ⟨c, ?_, ?_, hT⟩
  · have := cfg.totalSize_pos
    rw [hc] at this
    exact pos_of_mul_pos_right this (mul_pos hn cfg.blockSize_pos).le
  · rw [cfg.fileSize_eq, hT, Int.mul_ediv_cancel_left _ hn.ne']

/-- Rounded down to a block and split by the file size, an offset names block `t / b` of the
tiling. -/
theorem rndBlock_of_dvd (h : Stored a cfg)
    (hdvd : cfg.numFiles * cfg.blockSize ∣ cfg.totalSize) {t : ℤ} (ht : 0 ≤ t)
    (ht' : t < cfg.totalSize) :
    ∃ f p, rndBlock cfg t = .ok (f, p) ∧ f < cfg.numFiles ∧ 0 ≤ p ∧
      p + cfg.blockSize ≤ cfg.fileSize := by
  obtain ⟨c, hc, hS, hT⟩ := exists_blocks_of_dvd hdvd
  have hb := cfg.blockSize_pos
  have hround : t - t % cfg.blockSize = cfg.blockSize * (t / cfg.blockSize) := by
    have := Int.mul_ediv_add_emod t cfg.blockSize
    omega
  have hk : 0 ≤ t / cfg.blockSize := Int.ediv_nonneg ht hb.le
  have hk' : t / cfg.blockSize < cfg.numFiles * c := by
    refine Int.ediv_lt_of_lt_mul hb ?_
    calc t < cfg.totalSize := ht'
      _ = cfg.numFiles * c * cfg.blockSize := by rw [hT]; ring
  have hf : t / cfg.blockSize / c < cfg.numFiles := Int.ediv_lt_of_lt_mul hc hk'
  have hf₀ : 0 ≤ t / cfg.blockSize / c := Int.ediv_nonneg hk hc.le
  have hn := cfg.numFiles_lt
  refine ⟨_, _, rndBlock_eq h (by rw [hS]; positivity) ht ht', ?_, ?_, ?_⟩
  · rw [hround, hS, Int.mul_ediv_mul_of_pos _ _ hb]
    unfold toU32
    omega
  · exact Int.emod_nonneg _ (by rw [hS]; positivity)
  · rw [hround, hS, Int.mul_emod_mul_of_pos _ _ hb]
    have := Int.emod_lt_of_pos (t / cfg.blockSize) hc
    nlinarith

/-! ## A call answers for its draws -/

/-- The block the retry loop settles on is the block of one of the draws. -/
theorem rndRetry_ok {g : Globals} {threadId : ℕ} {s : GenState} {block : ℕ × ℤ} :
    ∀ {draws : List ℤ}, rndRetry cfg g threadId s draws = .ok block →
      ∃ t ∈ draws, rndBlock cfg t = .ok block
  | [], h => nomatch h
  | t :: draws, h => by
      obtain ⟨b, hb, h⟩ := except_bind_eq_ok.mp h
      split at h
      · obtain ⟨u, hu, hub⟩ := rndRetry_ok h
        exact ⟨u, List.mem_cons_of_mem _ hu, hub⟩
      · obtain rfl := Except.ok.inj h
        exact ⟨t, List.mem_cons_self, hb⟩

/-- It divides by zero only where one of the draws does. -/
theorem rndRetry_zeroDivide {g : Globals} {threadId : ℕ} {s : GenState} :
    ∀ {draws : List ℤ}, rndRetry cfg g threadId s draws = .error .zeroDivide →
      ∃ t ∈ draws, rndBlock cfg t = .error .zeroDivide
  | [], h => nomatch h
  | t :: draws, h => by
      cases hb : rndBlock cfg t with
      | error e =>
        rw [rndRetry, hb] at h
        exact ⟨t, List.mem_cons_self, hb.trans h⟩
      | ok block =>
        simp only [rndRetry, hb, bind, Except.bind] at h
        split at h
        · obtain ⟨u, hu, hub⟩ := rndRetry_zeroDivide h
          exact ⟨u, List.mem_cons_of_mem _ hu, hub⟩
        · cases h

@[simp] theorem fsyncOf_isData (i : ℕ) : (fsyncOf i).isData = false := rfl

/-- **A data request of the random generator is one block, of one of the draws.** -/
theorem rndRequest_data {g : Globals} {threadId : ℕ} {draws : List ℤ} {s s' : GenState}
    {r : FileRequest} (h : fileGetRndRequest cfg g threadId draws s = .ok (some r, s'))
    (hr : r.isData) :
    ∃ t ∈ draws, rndBlock cfg t = .ok (r.fileId, r.pos) ∧ r.size = cfg.blockSize := by
  unfold fileGetRndRequest endRequest fsyncRequest at h
  split_ifs at h
  · obtain ⟨rfl, -⟩ := by simpa using h
    simp at hr
  · simp at h
  all_goals first
    | obtain ⟨rfl, -⟩ := by simpa using h
      simp at hr
    | obtain ⟨block, hblock, h⟩ := except_bind_eq_ok.mp h
      obtain ⟨rfl, -⟩ := by simpa [pure, Except.pure] using h
      obtain ⟨t, ht, htb⟩ := rndRetry_ok hblock
      exact ⟨t, ht, htb, rfl⟩

/-- A call divides by zero only where one of its draws does. -/
theorem rndRequest_zeroDivide {g : Globals} {threadId : ℕ} {draws : List ℤ} {s : GenState}
    (h : fileGetRndRequest cfg g threadId draws s = .error .zeroDivide) :
    ∃ t ∈ draws, rndBlock cfg t = .error .zeroDivide := by
  unfold fileGetRndRequest at h
  split_ifs at h
  cases hb : rndRetry cfg g threadId s draws with
  | error e =>
    refine rndRetry_zeroDivide (hb.trans ?_)
    simpa [rndData, hb, bind, Except.bind] using h
  | ok block =>
    rw [rndData, hb] at h
    cases h

/-- The first call of an unlimited run with one draw is answered by the block of that draw. -/
theorem rndRequest_first (cfg : Config) (t : ℤ) :
    fileGetRndRequest cfg (unlimited 1) 0 [t] (initVars fun _ => (0, 0))
      = rndBlock cfg t >>= fun block =>
        .ok (some ⟨block.1, block.2, cfg.blockSize, rndOp cfg (initVars fun _ => (0, 0))⟩,
          countRequest (rndOp cfg (initVars fun _ => (0, 0)))
            { initVars fun _ => (0, 0) with
              perThread := Function.update (fun _ => (0, 0)) 0 block }) := by
  unfold fileGetRndRequest rndData rndRetry
  cases rndBlock cfg t <;> simp [unlimited, limitReached, fsyncDue, initVars, bind, Except.bind,
    pure, Except.pure]

theorem rndOp_isData (s : GenState) (f : ℕ) (p q : ℤ) :
    (⟨f, p, q, rndOp cfg s⟩ : FileRequest).isData := by
  rcases rndOp_eq cfg s with h | h <;> rw [h] <;> rfl

/-- **Staying inside the files, read on single offsets.** -/
theorem rndBlock_of_rndInBounds (h : RndInBounds cfg) {t : ℤ} (ht : 0 ≤ t)
    (ht' : t < cfg.totalSize) :
    ∃ f p, rndBlock cfg t = .ok (f, p) ∧ f < cfg.numFiles ∧
      p + cfg.blockSize ≤ cfg.fileSize := by
  obtain ⟨hz, hin⟩ := h (unlimited 1) 0 [t] (initVars fun _ => (0, 0))
    (by simpa using ⟨ht, ht'⟩)
  rw [rndRequest_first] at hz hin
  cases hb : rndBlock cfg t with
  | error e =>
    have he : e = .zeroDivide := by
      unfold rndBlock at hb
      split at hb
      · exact (Except.error.inj hb).symm
      · cases hb
    rw [hb, he] at hz
    exact absurd rfl hz
  | ok block =>
    rw [hb] at hin
    obtain ⟨hf, -, hp, -⟩ := hin _ _ rfl (rndOp_isData _ _ _ _)
    exact ⟨block.1, block.2, rfl, hf, hp⟩

/-! ## Only a tiling keeps every offset inside -/

/-- The block a whole number of blocks starts at. -/
theorem rndBlock_mul (h : Stored a cfg) (hS : 0 < cfg.fileSize) {j : ℤ} (hj : 0 ≤ j)
    (hlt : cfg.blockSize * j < cfg.totalSize) :
    rndBlock cfg (cfg.blockSize * j) = .ok (toU32 (cfg.blockSize * j / cfg.fileSize),
      cfg.blockSize * j % cfg.fileSize) := by
  rw [rndBlock_eq h hS (mul_nonneg cfg.blockSize_pos.le hj) hlt, Int.mul_emod_right, sub_zero]

/-- The blocks tile a file: otherwise the last block that starts in the first file sticks out. -/
theorem blockSize_dvd (h : Stored a cfg) (hin : RndInBounds cfg) (hS : 0 < cfg.fileSize) :
    cfg.blockSize ∣ cfg.fileSize := by
  have hb := cfg.blockSize_pos
  by_contra hnd
  have hmod := Int.emod_pos_of_not_dvd hnd
  have hsum := Int.mul_ediv_add_emod cfg.fileSize cfg.blockSize
  have hj : 0 ≤ cfg.fileSize / cfg.blockSize := Int.ediv_nonneg hS.le hb.le
  have hlt : cfg.blockSize * (cfg.fileSize / cfg.blockSize) < cfg.fileSize := by omega
  have hlt' := hlt.trans_le (fileSize_le_totalSize cfg)
  have hnn : 0 ≤ cfg.blockSize * (cfg.fileSize / cfg.blockSize) := mul_nonneg hb.le hj
  obtain ⟨f, p, hfp, -, hp⟩ := rndBlock_of_rndInBounds hin hnn hlt'
  rw [rndBlock_mul h hS hj hlt', Except.ok.injEq, Prod.mk.injEq, Int.emod_eq_of_lt hnn hlt] at hfp
  have := Int.emod_lt_of_pos cfg.fileSize hb
  omega

/-- The files tile the total size: otherwise its remainder starts a file past the last one. -/
theorem totalSize_eq (h : Stored a cfg) (hin : RndInBounds cfg) (hS : 0 < cfg.fileSize) :
    cfg.numFiles * cfg.fileSize = cfg.totalSize := by
  obtain ⟨c, hc⟩ := blockSize_dvd h hin hS
  by_contra hne
  have hlt : cfg.numFiles * cfg.fileSize < cfg.totalSize :=
    lt_of_le_of_ne (numFiles_mul_fileSize_le cfg) hne
  have hnn : 0 ≤ cfg.numFiles * cfg.fileSize := mul_nonneg (Int.natCast_nonneg _) hS.le
  obtain ⟨f, p, hfp, hf, -⟩ := rndBlock_of_rndInBounds hin hnn hlt
  have hmul : cfg.numFiles * cfg.fileSize = cfg.blockSize * (cfg.numFiles * c) := by
    rw [hc]; ring
  have hj : 0 ≤ cfg.numFiles * c :=
    nonneg_of_mul_nonneg_right (hmul ▸ hnn) cfg.blockSize_pos
  rw [hmul, rndBlock_mul h hS hj (hmul ▸ hlt), ← hmul, Int.mul_ediv_cancel _ hS.ne',
    toU32_of_lt cfg.numFiles_lt, Except.ok.injEq, Prod.mk.injEq] at hfp
  omega

/-- **Random requests stay inside the files exactly when files and blocks tile the total size.** -/
theorem rndInBounds_iff (h : parseArguments a = .ok cfg) :
    RndInBounds cfg ↔ (cfg.numFiles * cfg.blockSize : ℤ) ∣ cfg.totalSize := by
  have hst := stored_of_parseArguments h
  constructor
  · intro hin
    have hS : 0 < cfg.fileSize := by
      obtain ⟨f, p, hfp, -, hp⟩ := rndBlock_of_rndInBounds hin le_rfl cfg.totalSize_pos
      refine lt_of_le_of_ne (fileSize_nonneg cfg) fun hz => ?_
      rw [rndBlock, ← hz] at hfp
      simp [toU64] at hfp
    obtain ⟨c, hc⟩ := blockSize_dvd hst hin hS
    exact ⟨c, by rw [← totalSize_eq hst hin hS, hc, mul_assoc]⟩
  · intro hdvd g threadId draws s hdraws
    have hblock : ∀ t ∈ draws, ∃ f p, rndBlock cfg t = .ok (f, p) ∧ f < cfg.numFiles ∧ 0 ≤ p ∧
        p + cfg.blockSize ≤ cfg.fileSize := fun t ht =>
      rndBlock_of_dvd hst hdvd (hdraws t ht).1 (hdraws t ht).2
    refine ⟨fun hz => ?_, fun r s' hr hd => ?_⟩
    · obtain ⟨t, ht, hzt⟩ := rndRequest_zeroDivide hz
      obtain ⟨f, p, hfp, -⟩ := hblock t ht
      rw [hfp] at hzt
      cases hzt
    · obtain ⟨t, ht, htr, hsize⟩ := rndRequest_data hr hd
      obtain ⟨f, p, hfp, hf, hp, hpS⟩ := hblock t ht
      obtain ⟨rfl, rfl⟩ := by simpa [hfp] using htr
      refine ⟨hf, hp, hsize ▸ hpS, ?_⟩
      rw [checkRequestParameters, if_neg (by omega), if_neg (by omega)]

/-! ## One setting on either side -/

/-- `--file-test-mode=rndrd` with the given number of files, total and block size, the other options
at their defaults. -/
def rndrdArgs (fileNum : ℤ) (fileTotalSize fileBlockSize : ℕ) : Args where
  command := .run
  fileNum := fileNum
  fileTotalSize := fileTotalSize
  fileTestMode := some "rndrd"
  fileIoMode := some "sync"
  fileMergedRequests := 0
  fileBlockSize := fileBlockSize
  fileExtraFlags := none
  fileFsyncFreq := 100
  fileFsyncEnd := true
  fileFsyncAll := false
  fileFsyncMode := "fsync"
  fileRwRatio := 3 / 2
  fileRwRatio_double := defaultRwRatio_double
  haveLibaio := true
  haveMmap := true
  haveFdatasync := true

/-- What `parse_arguments` makes of them. -/
def rndrdConfig (n T b : ℕ) (hn : 0 < n ∧ n < 2 ^ 32) (hT : 0 < T ∧ T < 2 ^ 63)
    (hb : 0 < b) : Config where
  numFiles := n
  totalSize := T
  fileSize := T / n
  testMode := .rndRead
  ioMode := .sync
  mergedRequests := 0
  blockSize := b
  maxRequestSize := b
  extraFlags := .normal
  fsyncFreq := 100
  fsyncEnd := true
  fsyncAll := false
  fsyncMode := .all
  rwRatio := 3 / 2
  numFiles_pos := hn.1
  numFiles_lt := hn.2
  totalSize_pos := Int.natCast_pos.mpr hT.1
  totalSize_lt := by exact_mod_cast hT.2
  fileSize_eq := rfl
  mergedRequests_nonneg := defaultMergedRequests_nonneg
  blockSize_pos := Int.natCast_pos.mpr hb
  maxRequestSize_eq := (if_neg (Int.lt_irrefl 0)).symm
  fsyncFreq_nonneg := by decide
  rwRatio_double := defaultRwRatio_double
  rwRatio_nonneg := defaultRwRatio_nonneg

theorem parseArguments_rndrdArgs {n T b : ℕ} (hn : 0 < n ∧ n < 2 ^ 32)
    (hT : 0 < T ∧ T < 2 ^ 63) (hb : 0 < b) (hb' : b < 2 ^ 31) :
    parseArguments (rndrdArgs n T b) = .ok (rndrdConfig n T b hn hT hb) := by
  have h1 : toU32 n = n := toU32_of_lt hn.2
  have h2 : toI64 T = T := toI64_of_lt (by omega) (by omega)
  have h3 : toI32 b = b := toI32_of_lt (by omega) (by omega)
  simp only [parseArguments, rndrdArgs, h1, h2, h3]
  have hr : ¬ (3 / 2 : ℚ) < 0 := by norm_num
  simp [parseTestMode, parseIoMode, parseExtraFlags, parseFsyncMode, bind, Except.bind, pure,
    Except.pure, hn.1.ne', hT.1.ne', hb.ne', hr, rndrdConfig]

/-- The default sizes, two gigabytes in 128 files and blocks of sixteen kilobytes, tile. -/
theorem rndInBounds_defaults :
    ∃ cfg, parseArguments (rndrdArgs 128 (2 * 1024 ^ 3) 16384) = .ok cfg ∧ RndInBounds cfg := by
  have h := parseArguments_rndrdArgs (n := 128) (T := 2 * 1024 ^ 3) (b := 16384)
    (by norm_num) (by norm_num) (by norm_num) (by norm_num)
  exact ⟨_, h, (rndInBounds_iff h).mpr ⟨1024, by norm_num [rndrdConfig]⟩⟩

/-- **A hundred bytes in three files**: byte 99 is taken for the start of a fourth file, and the
guard of `file_execute_request` lets file number 3 through. -/
theorem rndRequest_past_last_file :
    ∃ cfg, parseArguments (rndrdArgs 3 100 1) = .ok cfg ∧ cfg.numFiles = 3 ∧
      (∃ s, fileGetRndRequest cfg (unlimited 1) 0 [99] (initVars fun _ => (0, 0))
        = .ok (some ⟨3, 0, 1, .read⟩, s)) ∧
      checkRequestParameters cfg ⟨3, 0, 1, .read⟩ = .ok 3 ∧ ¬ RndInBounds cfg := by
  have h := parseArguments_rndrdArgs (n := 3) (T := 100) (b := 1)
    (by norm_num) (by norm_num) (by norm_num) (by norm_num)
  have hblock : rndBlock (rndrdConfig 3 100 1 (by norm_num) (by norm_num) (by norm_num)) 99
      = .ok (3, 0) := by
    rw [rndBlock_eq (stored_of_parseArguments h) (by norm_num [rndrdConfig]) (by norm_num)
      (by norm_num [rndrdConfig])]
    simp [rndrdConfig, toU32]
  have hr := rndRequest_first (rndrdConfig 3 100 1 (by norm_num) (by norm_num) (by norm_num)) 99
  rw [hblock] at hr
  refine ⟨_, h, rfl, ⟨_, hr⟩, rfl, fun hin => ?_⟩
  obtain ⟨-, hin⟩ := hin (unlimited 1) 0 [99] (initVars fun _ => (0, 0)) (by simp [rndrdConfig])
  exact absurd (hin _ _ hr rfl).1 (by simp [rndrdConfig])

end Sysbench.Fileio
