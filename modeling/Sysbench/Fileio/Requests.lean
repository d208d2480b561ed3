import Sysbench.Fileio.Options

/-!
# Fileio/Requests — the two request generators of the file I/O test

`file_get_request` hands out one request at a time under `exec_mutex`, from the sequential or the
random generator.  Both first look at the request limit, then at the periodic fsync, and only then
build a data request.  The counters they share are `GenState`; `Globals` is what they read of
`sb_globals`.
-/

namespace Sysbench.Fileio

/-- `sb_file_op_t`. -/
inductive FileOp
  | null
  | read
  | write
  | fsync
  deriving DecidableEq, Repr

/-- `sb_file_request_t`. -/
structure FileRequest where
  fileId : ℕ
  pos : ℤ
  size : ℤ
  operation : FileOp
  deriving DecidableEq, Repr

/-- A request that moves data, as opposed to an fsync. -/
def FileRequest.isData (r : FileRequest) : Bool := r.operation = .read || r.operation = .write

/-- An fsync of file `i`. -/
def fsyncOf (i : ℕ) : FileRequest := ⟨i, 0, 0, .fsync⟩

/-- The part of `sb_globals` the generators read.  `max_requests` is an `unsigned int`. -/
structure Globals where
  maxRequests : ℕ
  validate : Bool
  numThreads : ℕ
  maxRequests_lt : maxRequests < 2 ^ 32

/-- A run without a request limit or validation. -/
def unlimited (numThreads : ℕ) : Globals := ⟨0, false, numThreads, by norm_num⟩

/-- The static variables of the generators.  `perThread i` is the block thread `i` was last given
(`buffer_file_id`, `buffer_pos`), `warnings` what `check_seq_req` logged. -/
structure GenState where
  position : ℤ
  currentFile : ℕ
  fsyncedFile : ℕ
  fsyncedFile2 : ℕ
  isDirty : Bool
  reqPerformed : ℕ
  readOps : ℤ
  writeOps : ℤ
  perThread : ℕ → ℕ × ℤ
  prevReq : FileRequest
  warnings : List String

/-- `init_vars` and `clear_stats`.  The `per_thread` array comes from `malloc`, so its contents are
arbitrary. -/
def initVars (perThread : ℕ → ℕ × ℤ) : GenState where
  position := 0
  currentFile := 0
  fsyncedFile := 0
  fsyncedFile2 := 0
  isDirty := false
  reqPerformed := 0
  readOps := 0
  writeOps := 0
  perThread := perThread
  prevReq := ⟨0, 0, 0, .null⟩
  warnings := []

/-! ## What the two generators share -/

/-- Why a call of a generator does not return: the random one looks for a block with no further draw
to try, or divides by a zero file size; a sum of the sequential one leaves `long long`. -/
inductive Stuck
  | noDraw
  | zeroDivide
  | overflow
  deriving DecidableEq, Repr

/-- The limit on the number of requests has been reached. -/
def limitReached (g : Globals) (s : GenState) : Bool :=
  0 < g.maxRequests && g.maxRequests ≤ s.reqPerformed

/-- Past the limit: one fsync for each file where `wanted`, then the null request. -/
def endRequest (cfg : Config) (wanted : Bool) (s : GenState) : Option FileRequest × GenState :=
  if wanted && s.fsyncedFile2 < cfg.numFiles then
    (some (fsyncOf s.fsyncedFile2), { s with fsyncedFile2 := s.fsyncedFile2 + 1 })
  else (none, s)

/-- It is time for the periodic fsync: something was written, and the request counter is at a
multiple of the frequency. -/
def fsyncDue (cfg : Config) (s : GenState) : Bool :=
  cfg.fsyncFreq ≠ 0 && s.isDirty && s.reqPerformed % cfg.fsyncFreq.toNat = 0

/-- The next request of a periodic series; the last one ends the series and clears `is_dirty`. -/
def fsyncRequest (cfg : Config) (s : GenState) : Option FileRequest × GenState :=
  (some (fsyncOf s.fsyncedFile),
    if s.fsyncedFile + 1 = cfg.numFiles then { s with fsyncedFile := 0, isDirty := false }
    else { s with fsyncedFile := s.fsyncedFile + 1 })

/-- The bookkeeping of a data request: the 32-bit counter, and `is_dirty` for a write. -/
def countRequest (op : FileOp) (s : GenState) : GenState :=
  { s with
    reqPerformed := (s.reqPerformed + 1) % 2 ^ 32
    isDirty := s.isDirty || op = .write }

/-! ## The sequential generator -/

/-- A request as the warnings print it, its position and size cut to `int`. -/
def FileRequest.describe (r : FileRequest) : String :=
  "file_id: " ++ toString r.fileId ++ ", pos: " ++ toString (toI32 r.pos) ++ "  size: "
    ++ toString (toI32 r.size)

/-- `check_seq_req`: the warnings logged for two consecutive requests.  The difference of the file
numbers is unsigned. -/
def checkSeqReq (cfg : Config) (prev r : FileRequest) : List String :=
  if r.operation = .fsync || r.operation = .null then []
  else if prev.operation = .null then []
  else if 1 < toU32 ((r.fileId : ℤ) - prev.fileId) &&
      !(r.fileId = 0 && prev.fileId = cfg.numFiles - 1) then
    ["Discovered too large file difference in seq requests!"]
  else if r.fileId = prev.fileId then
    if r.pos - prev.pos ≠ prev.size then
      ["Discovered too large position difference in seq request!"]
    else []
  else if prev.pos + prev.size ≠ cfg.fileSize || r.pos ≠ 0 then
    ["Invalid file switch found!", "Old: " ++ prev.describe, "New: " ++ r.describe]
  else []

/-- The operation of the sequential modes. -/
def seqOp (cfg : Config) : FileOp :=
  if cfg.testMode = .write || cfg.testMode = .rewrite then .write else .read

/-- Rewind to the first file if all files are processed. -/
def rewind (cfg : Config) (s : GenState) : GenState :=
  if s.currentFile = cfg.numFiles then { s with position := 0, currentFile := 0 } else s

/-- The size of the request at the cursor: a block, or as many merged blocks as are left in the
file.  The sums are those of `long long` where `cursorOverflows` is false. -/
def seqSize (cfg : Config) (s : GenState) : ℤ :=
  if 0 < cfg.mergedRequests then
    if s.position + cfg.maxRequestSize ≤ cfg.fileSize then cfg.maxRequestSize
    else cfg.fileSize - s.position
  else cfg.blockSize

/-- Move the cursor over a request, scrolling to the next file at the end of one. -/
def advance (cfg : Config) (size : ℤ) (s : GenState) : GenState :=
  if s.position + size = cfg.fileSize then
    { s with currentFile := (s.currentFile + 1) % 2 ^ 32, position := 0 }
  else { s with position := s.position + size }

/-- A sum of the data request at the cursor leaves `long long`: the end of a full merged request,
what is left of the file, or the end of the request. -/
def cursorOverflows (cfg : Config) (s : GenState) : Bool :=
  (0 < cfg.mergedRequests && !fitsI64 (s.position + cfg.maxRequestSize)) ||
    !fitsI64 (seqSize cfg s) || !fitsI64 (s.position + seqSize cfg s)

/-- Compare a request with the one before it, in validation mode. -/
def checkOrder (cfg : Config) (g : Globals) (r : FileRequest) (s : GenState) : GenState :=
  if g.validate then
    { s with
      warnings := s.warnings ++ checkSeqReq cfg s.prevReq r
      prevReq := r }
  else s

/-- The data request of the sequential generator. -/
def seqData (cfg : Config) (g : Globals) (s : GenState) : Option FileRequest × GenState :=
  let s := rewind cfg (countRequest (seqOp cfg) s)
  let r : FileRequest := ⟨s.currentFile, s.position, seqSize cfg s, seqOp cfg⟩
  (some r, checkOrder cfg g r (advance cfg r.size s))

/-- `file_get_seq_request`; `none` is the null request. -/
def fileGetSeqRequest (cfg : Config) (g : Globals) (s : GenState) :
    Option FileRequest × GenState :=
  if limitReached g s then endRequest cfg (cfg.fsyncEnd && seqOp cfg = .write) s
  else if seqOp cfg = .write && fsyncDue cfg s then fsyncRequest cfg s
  else seqData cfg g s

/-- The next call makes a data request, and a sum of it overflows. -/
def seqOverflows (cfg : Config) (g : Globals) (s : GenState) : Bool :=
  !limitReached g s && !(seqOp cfg = .write && fsyncDue cfg s) &&
    cursorOverflows cfg (rewind cfg s)

/-! ## The random generator -/

/-- The file and the position of a raw offset: round down to a block, then split by the file size.
All of it is done in `unsigned long long`, the file number going through `int`. -/
def rndBlock (cfg : Config) (t : ℤ) : Except Stuck (ℕ × ℤ) :=
  let tmppos := toU64 t - toU64 t % toU64 cfg.blockSize
  if toU64 cfg.fileSize = 0 then .error .zeroDivide
  else .ok (toU32 (toI32 (tmppos / toU64 cfg.fileSize : ℕ)),
    toI64 (tmppos % toU64 cfg.fileSize : ℕ))

/-- Another thread is using this block. -/
def blockTaken (g : Globals) (s : GenState) (threadId : ℕ) (block : ℕ × ℤ) : Bool :=
  (List.range g.numThreads).any fun i => i ≠ threadId && s.perThread i = block

/-- The `retry` loop over the raw offsets drawn. -/
def rndRetry (cfg : Config) (g : Globals) (threadId : ℕ) (s : GenState) :
    List ℤ → Except Stuck (ℕ × ℤ)
  | [] => .error .noDraw
  | t :: draws => do
    let block ← rndBlock cfg t
    if g.validate && blockTaken g s threadId block then rndRetry cfg g threadId s draws
    else return block

/-- The operation of the random modes; the combined mode keeps the ratio of reads to writes. -/
def rndOp (cfg : Config) (s : GenState) : FileOp :=
  let mode :=
    if cfg.testMode = .rndRw then
      if quotientBelow (toI32 (s.readOps + 1)) (toI32 (s.writeOps + 1)) cfg.rwRatio then
        TestMode.rndRead
      else .rndWrite
    else cfg.testMode
  if mode = .rndWrite then .write else .read

theorem rndOp_eq (cfg : Config) (s : GenState) : rndOp cfg s = .read ∨ rndOp cfg s = .write := by
  unfold rndOp
  dsimp only
  split_ifs <;> simp

/-- The random modes that write. -/
def rndWrites (cfg : Config) : Bool :=
  cfg.testMode = .rndWrite || cfg.testMode = .rndRw || cfg.testMode = .mixed

/-- The data request of the random generator. -/
def rndData (cfg : Config) (g : Globals) (threadId : ℕ) (draws : List ℤ) (s : GenState) :
    Except Stuck (Option FileRequest × GenState) := do
  let block ← rndRetry cfg g threadId s draws
  let r : FileRequest := ⟨block.1, block.2, cfg.blockSize, rndOp cfg s⟩
  return (some r, countRequest (rndOp cfg s)
    { s with perThread := Function.update s.perThread threadId block })

/-- `file_get_rnd_request`, on the raw offsets it draws. -/
def fileGetRndRequest (cfg : Config) (g : Globals) (threadId : ℕ) (draws : List ℤ)
    (s : GenState) : Except Stuck (Option FileRequest × GenState) :=
  if limitReached g s then .ok (endRequest cfg (cfg.fsyncEnd && rndWrites cfg) s)
  else if fsyncDue cfg s then .ok (fsyncRequest cfg s)
  else rndData cfg g threadId draws s

/-! ## `file_get_request` -/

/-- One call of the generator: who calls, what it draws, and the two operation counters as the
completions of other threads have left them. -/
structure Call where
  threadId : ℕ
  draws : List ℤ
  readOps : ℤ
  writeOps : ℤ

/-- `file_get_request`. -/
def fileGetRequest (cfg : Config) (g : Globals) (s : GenState) (c : Call) :
    Except Stuck (Option FileRequest × GenState) :=
  let s := { s with readOps := c.readOps, writeOps := c.writeOps }
  if cfg.testMode.sequential then
    if seqOverflows cfg g s then .error .overflow else .ok (fileGetSeqRequest cfg g s)
  else fileGetRndRequest cfg g c.threadId c.draws s

/-- The parameter check at the head of `file_execute_request`: the index of `files[]` it goes on to
read. -/
def checkRequestParameters (cfg : Config) (r : FileRequest) : Except String ℕ :=
  if cfg.numFiles < r.fileId then .error ("Incorrect file id in request: " ++ toString r.fileId)
  else if cfg.fileSize < r.pos + r.size then
    .error "Too large position discovered in request!"
  else .ok r.fileId

/-- Two files of three sixteen-byte blocks, written sequentially: a setting small enough to follow
by hand. -/
def twoFiles (merged freq : ℕ) : Config where
  numFiles := 2
  totalSize := 96
  fileSize := 48
  testMode := .write
  ioMode := .sync
  mergedRequests := merged
  blockSize := 16
  maxRequestSize := if 0 < (merged : ℤ) then toI32 (16 * merged) else 16
  extraFlags := .normal
  fsyncFreq := freq
  fsyncEnd := true
  fsyncAll := false
  fsyncMode := .all
  rwRatio := 3 / 2
  numFiles_pos := by norm_num
  numFiles_lt := by norm_num
  totalSize_pos := by norm_num
  totalSize_lt := by norm_num
  fileSize_eq := by norm_num
  mergedRequests_nonneg := Int.natCast_nonneg _
  blockSize_pos := by norm_num
  maxRequestSize_eq := rfl
  fsyncFreq_nonneg := Int.natCast_nonneg _
  rwRatio_double := defaultRwRatio_double
  rwRatio_nonneg := defaultRwRatio_nonneg

end Sysbench.Fileio
