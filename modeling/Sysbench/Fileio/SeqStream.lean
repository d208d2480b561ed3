import Sysbench.Fileio.Requests

/-!
# Fileio/SeqStream — merged requests cover the blocks of the unmerged ones

When the block size divides the file size, the sequential generator walks the blocks of all files
in order, forever: block `i` of the walk is block `i % N` of file `(i / N) % num_files`, `N` blocks
to a file.  The cursor `(current_file, position)` stands at a block of this walk (`AtBlock`), with
one twist: at the end of a pass the rewind to file 0 is left to the next call.  An unmerged request
moves it by one block, a merged one by as many as fit; so both streams are the walk, cut
differently.
-/

namespace Sysbench.Fileio

variable {cfg : Config} {g : Globals} {s : GenState} {N i c : ℕ}

/-- The requests of `k` calls of the sequential generator. -/
def seqStream (cfg : Config) (g : Globals) : ℕ → GenState → List FileRequest
  | 0, _ => []
  | k + 1, s =>
    (fileGetSeqRequest cfg g s).1.toList ++ seqStream cfg g k (fileGetSeqRequest cfg g s).2

/-- A request cut into consecutive pieces of `b` bytes. -/
def pieces (b : ℤ) (r : FileRequest) : List FileRequest :=
  (List.range (r.size / b).toNat).map fun j : ℕ => { r with pos := r.pos + j * b, size := b }

/-- The same settings with `--file-merged-requests=0`. -/
def Config.unmerged (cfg : Config) : Config :=
  { cfg with
    mergedRequests := 0
    maxRequestSize := cfg.blockSize
    mergedRequests_nonneg := defaultMergedRequests_nonneg
    maxRequestSize_eq := (if_neg (Int.lt_irrefl 0)).symm }

/-- Block `i` of the walk over all files, `N` blocks to a file. -/
def blockRequest (cfg : Config) (N i : ℕ) : FileRequest :=
  ⟨i / N % cfg.numFiles, (i % N : ℕ) * cfg.blockSize, cfg.blockSize, seqOp cfg⟩

/-- **The cursor stands at block `i`**, up to the rewind the next call will do. -/
def AtBlock (cfg : Config) (N : ℕ) (s : GenState) (i : ℕ) : Prop :=
  s.position = (i % N : ℕ) * cfg.blockSize ∧
    (s.currentFile = i / N % cfg.numFiles ∨
      s.currentFile = cfg.numFiles ∧ i % N = 0 ∧ i / N % cfg.numFiles = 0)

theorem atBlock_initVars (perThread : ℕ → ℕ × ℤ) : AtBlock cfg N (initVars perThread) 0 := by
  simp [AtBlock, initVars]

/-! ## The walk over the blocks -/

/-- Moving on inside a file. -/
theorem add_div_mod_of_lt (h : i % N + c < N) :
    (i + c) / N = i / N ∧ (i + c) % N = i % N + c := by
  have hi := Nat.div_add_mod i N
  have heq : i + c = N * (i / N) + (i % N + c) := by omega
  constructor
  · rw [heq, Nat.mul_add_div (by omega), Nat.div_eq_of_lt h, add_zero]
  · rw [heq, Nat.mul_add_mod, Nat.mod_eq_of_lt h]

/-- Moving on to the end of a file. -/
theorem add_div_mod_of_eq (hN : 0 < N) (h : i % N + c = N) :
    (i + c) / N = i / N + 1 ∧ (i + c) % N = 0 := by
  have hi := Nat.div_add_mod i N
  have heq : i + c = N * (i / N + 1) := by rw [mul_add]; omega
  exact ⟨by rw [heq, Nat.mul_div_cancel_left _ hN], by rw [heq, Nat.mul_mod_right]⟩

/-- The next file of a pass, or the first one again. -/
theorem succ_mod (q n : ℕ) (hn : 0 < n) :
    q % n + 1 = n ∧ (q + 1) % n = 0 ∨ (q + 1) % n = q % n + 1 := by
  have hq := Nat.mod_lt q hn
  rw [← Nat.mod_add_mod]
  rcases Nat.lt_or_ge (q % n + 1) n with h | h
  · exact Or.inr (Nat.mod_eq_of_lt h)
  · have he : q % n + 1 = n := by omega
    exact Or.inl ⟨he, by rw [he, Nat.mod_self]⟩

/-! ## One call moves the cursor along the walk -/

/-- The rewind puts the cursor on the block it stands at. -/
theorem rewind_atBlock (h : AtBlock cfg N s i) :
    (rewind cfg s).currentFile = i / N % cfg.numFiles ∧
      (rewind cfg s).position = (i % N : ℕ) * cfg.blockSize := by
  have hlt := Nat.mod_lt (i / N) cfg.numFiles_pos
  obtain ⟨hp, hf | ⟨hf, hi, hq⟩⟩ := h
  · rw [rewind, if_neg (by omega)]
    exact ⟨hf, hp⟩
  · rw [rewind, if_pos hf, hi, hq]
    simp

/-- **Moving `c` blocks on, inside the file the cursor is in.** -/
theorem advance_atBlock (hS : cfg.fileSize = N * cfg.blockSize) (hc : 0 < c) (hcN : i % N + c ≤ N)
    (hf : s.currentFile = i / N % cfg.numFiles)
    (hp : s.position = (i % N : ℕ) * cfg.blockSize) :
    AtBlock cfg N (advance cfg (c * cfg.blockSize) s) (i + c) := by
  have hb := cfg.blockSize_pos
  have hn := cfg.numFiles_lt
  have hend : s.position + c * cfg.blockSize = cfg.fileSize ↔ i % N + c = N := by
    rw [hp, hS, ← add_mul, mul_left_inj' hb.ne']
    exact_mod_cast Iff.rfl
  rcases hcN.lt_or_eq with hlt | heq
  · obtain ⟨hdiv, hmod⟩ := add_div_mod_of_lt hlt
    rw [advance, if_neg (by rw [hend]; omega)]
    refine ⟨?_, Or.inl (by rw [hdiv]; exact hf)⟩
    change s.position + c * cfg.blockSize = _
    rw [hmod, hp, Nat.cast_add, add_mul]
  · obtain ⟨hdiv, hmod⟩ := add_div_mod_of_eq (by omega) heq
    have hlt := Nat.mod_lt (i / N) cfg.numFiles_pos
    rw [advance, if_pos (hend.mpr heq)]
    refine ⟨by simp [hmod], ?_⟩
    have hcur : (s.currentFile + 1) % 2 ^ 32 = i / N % cfg.numFiles + 1 := by
      rw [hf, Nat.mod_eq_of_lt (by omega)]
    rw [hdiv, hmod]
    rcases succ_mod (i / N) cfg.numFiles cfg.numFiles_pos with ⟨h1, h2⟩ | h
    · exact Or.inr ⟨hcur.trans h1, rfl, h2⟩
    · exact Or.inl (hcur.trans h.symm)

@[simp] theorem countRequest_position (op : FileOp) (s : GenState) :
    (countRequest op s).position = s.position := rfl

@[simp] theorem countRequest_currentFile (op : FileOp) (s : GenState) :
    (countRequest op s).currentFile = s.currentFile := rfl

theorem atBlock_checkOrder {r : FileRequest} :
    AtBlock cfg N (checkOrder cfg g r s) i ↔ AtBlock cfg N s i := by
  unfold checkOrder
  split <;> rfl

/-- **One call, with fsync and the limit off**: the request starts at the cursor's block, and the
cursor moves over the blocks it covers. -/
theorem seqRequest_atBlock (hg : g.maxRequests = 0) (hfreq : cfg.fsyncFreq = 0)
    (hS : cfg.fileSize = N * cfg.blockSize) (h : AtBlock cfg N s i) (hc : 0 < c)
    (hcN : i % N + c ≤ N)
    (hsize : ∀ t : GenState, t.position = (i % N : ℕ) * cfg.blockSize →
      seqSize cfg t = c * cfg.blockSize) :
    (fileGetSeqRequest cfg g s).1 = some { blockRequest cfg N i with size := c * cfg.blockSize } ∧
      AtBlock cfg N (fileGetSeqRequest cfg g s).2 (i + c) := by
  obtain ⟨hf, hp⟩ := rewind_atBlock (s := countRequest (seqOp cfg) s) h
  have hdata : fileGetSeqRequest cfg g s = seqData cfg g s := by
    simp [fileGetSeqRequest, limitReached, fsyncDue, hg, hfreq]
  rw [hdata, seqData]
  simp only [hsize _ hp, atBlock_checkOrder]
  exact ⟨by rw [hf, hp]; rfl, advance_atBlock hS hc hcN hf hp⟩

/-! ## The unmerged stream -/

/-- One unmerged call takes one block. -/
theorem seqRequest_unmerged (hg : g.maxRequests = 0) (hfreq : cfg.fsyncFreq = 0)
    (hm : cfg.mergedRequests = 0) (hN : 0 < N) (hS : cfg.fileSize = N * cfg.blockSize)
    (h : AtBlock cfg N s i) :
    (fileGetSeqRequest cfg g s).1 = some (blockRequest cfg N i) ∧
      AtBlock cfg N (fileGetSeqRequest cfg g s).2 (i + 1) := by
  have hi := Nat.mod_lt i hN
  have := seqRequest_atBlock (c := 1) hg hfreq hS h one_pos (by omega)
    (fun t _ => by simp [seqSize, hm])
  simpa [blockRequest] using this

/-- **The unmerged stream is the walk.** -/
theorem seqStream_unmerged (hg : g.maxRequests = 0) (hfreq : cfg.fsyncFreq = 0)
    (hm : cfg.mergedRequests = 0) (hN : 0 < N) (hS : cfg.fileSize = N * cfg.blockSize) (k : ℕ) :
    ∀ {s : GenState} {i : ℕ}, AtBlock cfg N s i →
      seqStream cfg g k s = (List.range' i k).map (blockRequest cfg N) := by
  induction k with
  | zero => intro s i _; rfl
  | succ k ih =>
    intro s i h
    obtain ⟨hr, hnext⟩ := seqRequest_unmerged hg hfreq hm hN hS h
    rw [seqStream, hr, ih hnext, List.range'_succ]
    rfl

/-- One pass over all files: the positions `0, b, …` of each file in turn. -/
def pass (cfg : Config) (N : ℕ) : List FileRequest :=
  (List.range cfg.numFiles).flatMap fun f =>
    (List.range N).map fun j : ℕ => ⟨f, j * cfg.blockSize, cfg.blockSize, seqOp cfg⟩

/-- The blocks of one file, in the walk. -/
theorem map_blockRequest_file (cfg : Config) (N f : ℕ) :
    (List.range' (f * N) N).map (blockRequest cfg N)
      = (List.range N).map fun j : ℕ =>
        ⟨f % cfg.numFiles, j * cfg.blockSize, cfg.blockSize, seqOp cfg⟩ := by
  rw [List.range'_eq_map_range, List.map_map]
  refine List.map_congr_left fun j hj => ?_
  have hj := List.mem_range.mp hj
  have hdiv : (f * N + j) / N = f := by
    rw [mul_comm, Nat.mul_add_div (by omega), Nat.div_eq_of_lt hj, add_zero]
  have hmod : (f * N + j) % N = j := by
    rw [mul_comm, Nat.mul_add_mod, Nat.mod_eq_of_lt hj]
  simp [blockRequest, hdiv, hmod]

/-- The blocks of the first `m` files of a pass, in the walk. -/
theorem map_blockRequest_files (p m : ℕ) (hm : m ≤ cfg.numFiles) :
    (List.range' (p * (cfg.numFiles * N)) (m * N)).map (blockRequest cfg N)
      = (List.range m).flatMap fun f => (List.range N).map fun j : ℕ =>
        ⟨f, j * cfg.blockSize, cfg.blockSize, seqOp cfg⟩ := by
  induction m with
  | zero => simp
  | succ m ih =>
    have hfile := map_blockRequest_file cfg N (p * cfg.numFiles + m)
    rw [Nat.mul_add_mod', Nat.mod_eq_of_lt (by omega)] at hfile
    rw [add_mul, one_mul, ← List.range'_append_1, List.map_append, ih (by omega),
      List.range_succ, List.flatMap_append, List.flatMap_singleton, ← hfile]
    congr 4
    ring

/-- **The walk is pass after pass.** -/
theorem map_blockRequest_passes (p : ℕ) :
    (List.range (p * (cfg.numFiles * N))).map (blockRequest cfg N)
      = (List.replicate p (pass cfg N)).flatten := by
  induction p with
  | zero => simp
  | succ p ih =>
    rw [List.replicate_succ', List.flatten_append, List.flatten_singleton, ← ih,
      List.range_eq_range', List.range_eq_range', add_mul, one_mul, ← List.range'_append_1,
      List.map_append]
    congr 1
    rw [zero_add]
    exact map_blockRequest_files p cfg.numFiles le_rfl

/-! ## The merged stream -/

/-- A request of `c` blocks inside a file, cut into blocks. -/
theorem pieces_blockRequest (hcN : i % N + c ≤ N) :
    pieces cfg.blockSize { blockRequest cfg N i with size := c * cfg.blockSize }
      = (List.range' i c).map (blockRequest cfg N) := by
  have hb := cfg.blockSize_pos
  rw [pieces, List.range'_eq_map_range, List.map_map]
  have hc : ((c : ℤ) * cfg.blockSize / cfg.blockSize).toNat = c := by
    rw [Int.mul_ediv_cancel _ hb.ne', Int.toNat_natCast]
  simp only [hc]
  refine List.map_congr_left fun j hj => ?_
  have hj := List.mem_range.mp hj
  obtain ⟨hdiv, hmod⟩ := add_div_mod_of_lt (i := i) (c := j) (N := N) (by omega)
  simp only [blockRequest, Function.comp_apply, hdiv, hmod, FileRequest.mk.injEq,
    true_and, and_true]
  push_cast
  ring

/-- One merged call takes the blocks left in the file, `m` at most. -/
theorem seqRequest_merged (hg : g.maxRequests = 0) (hfreq : cfg.fsyncFreq = 0) {m : ℕ}
    (hm : 0 < m) (hmerged : cfg.mergedRequests = m) (hmb : m * cfg.blockSize < 2 ^ 31) (hN : 0 < N)
    (hS : cfg.fileSize = N * cfg.blockSize) (h : AtBlock cfg N s i) :
    (fileGetSeqRequest cfg g s).1
        = some { blockRequest cfg N i with size := (min m (N - i % N) : ℕ) * cfg.blockSize } ∧
      AtBlock cfg N (fileGetSeqRequest cfg g s).2 (i + min m (N - i % N)) := by
  have hi := Nat.mod_lt i hN
  have hb := cfg.blockSize_pos
  have hmax : cfg.maxRequestSize = m * cfg.blockSize := by
    rw [cfg.maxRequestSize_eq, hmerged, if_pos (by exact_mod_cast hm), mul_comm,
      toI32_of_lt (by nlinarith) hmb]
  refine seqRequest_atBlock hg hfreq hS h (by omega) (by omega) fun t ht => ?_
  rw [seqSize, hmerged, if_pos (by exact_mod_cast hm), ht, hmax, hS, ← add_mul]
  have hle : ((i % N : ℕ) + m : ℤ) * cfg.blockSize ≤ N * cfg.blockSize ↔ i % N + m ≤ N := by
    rw [mul_le_mul_iff_of_pos_right hb]
    exact_mod_cast Iff.rfl
  rcases Nat.lt_or_ge N (i % N + m) with hlt | hge
  · rw [if_neg (by rw [hle]; omega), min_eq_right (by omega), Nat.cast_sub hi.le, sub_mul]
  · rw [if_pos (hle.mpr hge), min_eq_left (by omega)]

/-- **The merged stream, cut into blocks, is a stretch of the walk**, and its requests are whole
numbers of blocks. -/
theorem seqStream_merged (hg : g.maxRequests = 0) (hfreq : cfg.fsyncFreq = 0) {m : ℕ}
    (hm : 0 < m) (hmerged : cfg.mergedRequests = m) (hmb : m * cfg.blockSize < 2 ^ 31) (hN : 0 < N)
    (hS : cfg.fileSize = N * cfg.blockSize) (k : ℕ) :
    ∀ {s : GenState} {i : ℕ}, AtBlock cfg N s i →
      (∀ r ∈ seqStream cfg g k s, 0 < r.size ∧ cfg.blockSize ∣ r.size) ∧
      ∃ l, k ≤ l ∧ (seqStream cfg g k s).flatMap (pieces cfg.blockSize)
        = (List.range' i l).map (blockRequest cfg N) := by
  induction k with
  | zero => intro s i _; exact ⟨by simp [seqStream], 0, le_rfl, rfl⟩
  | succ k ih =>
    intro s i h
    have hi := Nat.mod_lt i hN
    have hc : 0 < min m (N - i % N) := by omega
    obtain ⟨hr, hnext⟩ := seqRequest_merged hg hfreq hm hmerged hmb hN hS h
    obtain ⟨hall, l, hkl, hl⟩ := ih hnext
    rw [seqStream, hr, Option.toList_some, List.singleton_append]
    refine ⟨?_, min m (N - i % N) + l, by omega, ?_⟩
    · refine List.forall_mem_cons.mpr ⟨⟨?_, Dvd.intro_left _ rfl⟩, hall⟩
      exact mul_pos (by exact_mod_cast hc) cfg.blockSize_pos
    · rw [List.flatMap_cons, pieces_blockRequest (by omega), hl, ← List.map_append,
        List.range'_append_1]

/-- **Merging requests changes how the walk is cut, not where it goes.**  Cut into blocks, any
number of merged requests is a prefix of the unmerged stream; and the unmerged stream goes over all
blocks of all files in order, pass after pass. -/
theorem merged_refines_unmerged (cfg : Config) (g : Globals) (perThread : ℕ → ℕ × ℤ)
    (hg : g.maxRequests = 0) (hfreq : cfg.fsyncFreq = 0) (hpos : 0 < cfg.fileSize)
    (hdvd : cfg.blockSize ∣ cfg.fileSize) (hm : 1 ≤ cfg.mergedRequests)
    (hmb : cfg.mergedRequests * cfg.blockSize < 2 ^ 31) :
    (∀ k, (∀ r ∈ seqStream cfg g k (initVars perThread), 0 < r.size ∧ cfg.blockSize ∣ r.size) ∧
      ∃ l, k ≤ l ∧ (seqStream cfg g k (initVars perThread)).flatMap (pieces cfg.blockSize)
        = seqStream cfg.unmerged g l (initVars perThread)) ∧
    ∀ p, seqStream cfg.unmerged g (p * (cfg.numFiles * (cfg.fileSize / cfg.blockSize).toNat))
        (initVars perThread)
      = (List.replicate p (pass cfg (cfg.fileSize / cfg.blockSize).toNat)).flatten := by
  have hb := cfg.blockSize_pos
  obtain ⟨N, hN⟩ : ∃ N : ℕ, cfg.fileSize / cfg.blockSize = N :=
    Int.eq_ofNat_of_zero_le (Int.ediv_nonneg hpos.le hb.le)
  obtain ⟨m, hmerged⟩ : ∃ m : ℕ, cfg.mergedRequests = m :=
    Int.eq_ofNat_of_zero_le cfg.mergedRequests_nonneg
  have hS : cfg.fileSize = N * cfg.blockSize := by rw [← hN, Int.ediv_mul_cancel hdvd]
  have hNpos : 0 < N := by
    have : (0 : ℤ) < N := pos_of_mul_pos_left (hS ▸ hpos) hb.le
    exact_mod_cast this
  rw [hN, Int.toNat_natCast]
  have hwalk := fun k => @seqStream_unmerged cfg.unmerged g N hg hfreq rfl hNpos hS k _ _
    (atBlock_initVars perThread)
  constructor
  · intro k
    obtain ⟨hall, l, hkl, hl⟩ := seqStream_merged hg hfreq (by omega) hmerged (by rwa [← hmerged])
      hNpos hS k (atBlock_initVars perThread)
    exact ⟨hall, l, hkl, hl.trans (hwalk l).symm⟩
  · intro p
    rw [hwalk, ← List.range_eq_range']
    exact map_blockRequest_passes p

/-- Three blocks to a file, merged two at a time: every other request is a short tail. -/
theorem merged_refines_unmerged_twoFiles :
    ∃ l, 3 ≤ l ∧ (seqStream (twoFiles 2 0) (unlimited 1) 3 (initVars fun _ => (0, 0))).flatMap
        (pieces 16)
      = seqStream (twoFiles 2 0).unmerged (unlimited 1) l (initVars fun _ => (0, 0)) :=
  ((merged_refines_unmerged (twoFiles 2 0) (unlimited 1) (fun _ => (0, 0)) rfl rfl (by decide)
    ⟨3, rfl⟩ (by decide) (by decide)).1 3).2

end Sysbench.Fileio
