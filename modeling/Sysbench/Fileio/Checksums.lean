import Sysbench.Fileio.Crc32
import Sysbench.Fileio.RandomBounds

/-!
# Fileio/Checksums — stamping blocks and checking what is read

In validation mode `create_files` fills each block with random bytes and ends it with a trailer: the
checksum of the random bytes and the offset of the block.  A read request checks the trailer at the
end of what *it* has read.  So a request for one block passes, whatever the random bytes
(`readPasses_of_block`); any other one fails for some of them (`exists_not_readPasses`).
-/

namespace Sysbench.Fileio

/-! ## `file_fill_buffer` and `file_validate_buffer` -/

/-- `FILE_CHECKSUM_LENGTH + FILE_OFFSET_LENGTH`. -/
def trailerLength : ℕ := 12

/-- The loop of `file_fill_buffer`: its stores, and the `i` it ends with if it ends within `fuel`
turns.  `i` is an `unsigned int`, the bound a `size_t`. -/
def fillLoop (draw : ℕ → Byte) (bound : ℕ) : (fuel i : ℕ) → List (ℕ × Byte) × Option ℕ
  | 0, _ => ([], none)
  | fuel + 1, i =>
    if i < bound then
      let p := fillLoop draw bound fuel ((i + 1) % 2 ^ 32)
      ((i, draw i) :: p.1, p.2)
    else ([], some i)

/-- `file_fill_buffer`: its stores, and whether it returns.  `draw i` is the byte drawn for index
`i`; the buffers are aligned. -/
def fileFillBuffer (fuel : ℕ) (draw : ℕ → Byte) (buf : Memory) (len offset : ℕ) :
    List (ℕ × Byte) × Bool :=
  match fillLoop draw (toU64 (len - trailerLength)) fuel 0 with
  | (stores, none) => (stores, false)
  | (stores, some i) =>
    let checksum := crc32 0 ((buf.store stores).bytes 0 (toU32 (len - trailerLength)))
    (stores ++ Memory.leStores 4 i checksum.toNat ++ Memory.leStores 8 (i + 4) offset, true)

/-- What `file_validate_buffer` finds: the block is good, `Checksum mismatch in block`,
`Offset mismatch in block`, or it has looked for the trailer outside of the buffer. -/
inductive Verdict
  | passed
  | checksumMismatch (calculated stored : ℕ)
  | offsetMismatch (actual stored : ℕ)
  | outside
  deriving DecidableEq

/-- `file_validate_buffer`, on a buffer of `cap` bytes. -/
def fileValidateBuffer (cap : ℕ) (buf : Memory) (len offset : ℕ) : Verdict :=
  let csOffset := toU32 (len - trailerLength)
  if cap < csOffset + trailerLength then .outside
  else
    let checksum := (crc32 0 (buf.bytes 0 csOffset)).toNat
    if checksum ≠ buf.load 4 csOffset then .checksumMismatch checksum (buf.load 4 csOffset)
    else if offset ≠ buf.load 8 (csOffset + 4) then
      .offsetMismatch offset (buf.load 8 (csOffset + 4))
    else .passed

/-! ## Files -/

/-- A file: its bytes and its length. -/
structure DataFile where
  data : Memory
  length : ℕ

/-- `write` of the first `n` bytes of a buffer, with the file position at `offset`. -/
def DataFile.write (f : DataFile) (offset : ℕ) (buf : Memory) (n : ℕ) : DataFile where
  data x := if offset ≤ x ∧ x < offset + n then buf (x - offset) else f.data x
  length := max f.length (offset + n)

/-- `pread`: the bytes that are there, and how many. -/
def DataFile.pread (f : DataFile) (buf : Memory) (count pos : ℕ) : ℕ × Memory :=
  let n := min count (f.length - pos)
  (n, fun x => if x < n then f.data (pos + x) else buf x)

/-- The size of a per-thread buffer, `sb_memalign(file_max_request_size)`. -/
def bufferSize (cfg : Config) : ℕ := cfg.maxRequestSize.toNat

/-- The loop of `create_files` over one file, from `offset` on, in validation mode; `none` where it
does not come to an end, writes outside of its buffer, or `offset` or `written`, which are
`long long`, overflow. -/
def createFile (cfg : Config) (draw : ℕ → ℕ → Byte) (offset written : ℕ) (buf : Memory)
    (f : DataFile) : Option (ℕ × Memory × DataFile) :=
  if offset < cfg.fileSize.toNat then
    -- after 2 ^ 32 turns the index has come round
    let p := fileFillBuffer (2 ^ 32) (draw offset) buf (toU32 cfg.blockSize) offset
    if p.2 ∧ (∀ w ∈ p.1, w.1 < bufferSize cfg) ∧ written + cfg.blockSize < 2 ^ 63 ∧
        offset + cfg.blockSize < 2 ^ 63 then
      createFile cfg draw (offset + cfg.blockSize.toNat) (written + cfg.blockSize.toNat)
        (buf.store p.1) (f.write offset (buf.store p.1) cfg.blockSize.toNat)
    else none
  else some (written, buf, f)
termination_by cfg.fileSize.toNat - offset
decreasing_by
  have := cfg.blockSize_pos
  omega

/-- `create_files`, starting with no test files: the loop over the files that are left. -/
def createFilesFrom (cfg : Config) (draw : ℕ → ℕ → ℕ → Byte) :
    List ℕ → ℕ → Memory → (ℕ → DataFile) → Option (ℕ → DataFile)
  | [], _, _, files => some files
  | i :: is, written, buf, files =>
    (createFile cfg (draw i) 0 written buf ⟨fun _ => 0, 0⟩).bind fun p =>
      createFilesFrom cfg draw is p.1 p.2.1 (Function.update files i p.2.2)

/-- `create_files`; `draw i offset` are the random bytes for the block at `offset` of file `i`. -/
def createFiles (cfg : Config) (draw : ℕ → ℕ → ℕ → Byte) (buf : Memory) :
    Option (ℕ → DataFile) :=
  createFilesFrom cfg draw (List.range cfg.numFiles) 0 buf fun _ => ⟨fun _ => 0, 0⟩

/-- The read branch of `file_execute_request` with synchronous I/O and validation: all bytes are
read, into the buffer, and the validation passes. -/
def readPasses (cfg : Config) (files : ℕ → DataFile) (buf : Memory) (r : FileRequest) : Prop :=
  let p := (files r.fileId).pread buf r.size.toNat r.pos.toNat
  (p.1 : ℤ) = r.size ∧ p.1 ≤ bufferSize cfg ∧
    fileValidateBuffer (bufferSize cfg) p.2 (toU32 r.size) (toU64 r.pos) = .passed

/-! ## A block as it is written -/

/-- Byte `x` of a block of `len` bytes: random, or of the checksum, or of the offset. -/
def blockByte (draw : ℕ → Byte) (len offset x : ℕ) : Byte :=
  if x < len - 12 then draw x
  else if x < len - 8 then
    BitVec.ofNat 8 ((crc32 0 ((List.range (len - 12)).map draw)).toNat / 256 ^ (x - (len - 12)))
  else BitVec.ofNat 8 (offset / 256 ^ (x - (len - 8)))

variable {draw : ℕ → Byte} {buf : Memory} {len offset : ℕ}

theorem blockByte_random {n x : ℕ} (hx : x < n) : blockByte draw (n + 12) offset x = draw x := by
  rw [blockByte, if_pos (by omega)]

theorem blockByte_checksum {n k : ℕ} (hk : k < 4) :
    blockByte draw (n + 12) offset (n + k)
      = BitVec.ofNat 8 ((crc32 0 ((List.range n).map draw)).toNat / 256 ^ k) := by
  rw [blockByte, if_neg (by omega), if_pos (by omega), Nat.add_sub_cancel,
    Nat.add_sub_cancel_left]

theorem blockByte_offset {n k : ℕ} :
    blockByte draw (n + 12) offset (n + 4 + k) = BitVec.ofNat 8 (offset / 256 ^ k) := by
  rw [blockByte, if_neg (by omega), if_neg (by omega), show n + 4 + k - (n + 12 - 8) = k by omega]

/-- The loop runs over the indices below its bound. -/
theorem fillLoop_eq {bound fuel i : ℕ} (hb : bound < 2 ^ 32) (hi : i ≤ bound)
    (hfuel : bound < i + fuel) :
    fillLoop draw bound fuel i
      = ((List.range' i (bound - i)).map fun k => (k, draw k), some bound) := by
  induction fuel generalizing i with
  | zero => omega
  | succ fuel ih =>
    rw [fillLoop]
    rcases hi.lt_or_eq with hlt | rfl
    · rw [if_pos hlt, Nat.mod_eq_of_lt (by omega), ih (by omega) (by omega),
        show bound - i = bound - (i + 1) + 1 by omega, List.range'_succ]
      rfl
    · rw [if_neg (lt_irrefl i), Nat.sub_self]
      rfl

theorem toU64_sub (hlen : 12 ≤ len) (hlen' : len < 2 ^ 32) :
    toU64 ((len : ℤ) - trailerLength) = len - 12 := by
  unfold toU64 trailerLength
  omega

theorem toU32_sub (hlen : 12 ≤ len) (hlen' : len < 2 ^ 32) :
    toU32 ((len : ℤ) - trailerLength) = len - 12 := by
  unfold toU32 trailerLength
  omega

/-- **`file_fill_buffer` stores the bytes of the block**, each once and no other. -/
theorem fileFillBuffer_eq {fuel : ℕ} (hlen : 12 ≤ len) (hlen' : len < 2 ^ 32)
    (hfuel : len ≤ fuel + 11) :
    fileFillBuffer fuel draw buf len offset
      = ((List.range len).map fun x => (x, blockByte draw len offset x), true) := by
  obtain ⟨n, rfl⟩ := Nat.exists_eq_add_of_le' hlen
  have hn : n + 12 - 12 = n := rfl
  rw [fileFillBuffer, toU64_sub hlen hlen', toU32_sub hlen hlen', hn,
    fillLoop_eq (by omega) (Nat.zero_le n) (by omega), Nat.sub_zero, ← List.range_eq_range']
  dsimp only
  have hbytes : (buf.store ((List.range n).map fun k => (k, draw k))).bytes 0 n
      = (List.range n).map draw := by
    refine List.map_congr_left fun k hk => ?_
    rw [zero_add, Memory.store_range, if_pos (List.mem_range.mp hk)]
  rw [hbytes, show List.range (n + 12) = List.range (n + 4 + 8) from rfl, List.range_add,
    List.range_add]
  simp only [List.map_append, List.map_map, Memory.leStores]
  refine Prod.ext (congrArg₂ _ (congrArg₂ _ ?_ ?_) ?_) rfl
  · exact List.map_congr_left fun x hx => by rw [blockByte_random (List.mem_range.mp hx)]
  · exact List.map_congr_left fun k hk => by
      rw [Function.comp_apply, blockByte_checksum (List.mem_range.mp hk)]
  · exact List.map_congr_left fun k _ => by rw [Function.comp_apply, blockByte_offset]

/-! ## Where the stores go -/

theorem fillLoop_inside (draw : ℕ → Byte) (fuel : ℕ) {bound i : ℕ} (hb : bound < 2 ^ 32)
    (hi : i ≤ bound) :
    (∀ w ∈ (fillLoop draw bound fuel i).1, w.1 < bound) ∧
      ∀ k, (fillLoop draw bound fuel i).2 = some k → k = bound := by
  induction fuel generalizing i with
  | zero => exact ⟨by simp [fillLoop], fun k hk => (nomatch hk)⟩
  | succ fuel ih =>
    rw [fillLoop]
    split_ifs with hlt
    · rw [Nat.mod_eq_of_lt (by omega)]
      obtain ⟨hstores, hend⟩ := ih (i := i + 1) hlt
      exact ⟨List.forall_mem_cons.mpr ⟨hlt, hstores⟩, hend⟩
    · refine ⟨by simp, fun k hk => ?_⟩
      obtain rfl := Option.some.inj hk
      omega

/-- **A block of at least twelve bytes is filled inside**, however far the loop gets. -/
theorem fileFillBuffer_inside {fuel : ℕ} (hlo : 12 ≤ len) (hhi : len < 2 ^ 32) :
    ∀ w ∈ (fileFillBuffer fuel draw buf len offset).1, w.1 < len := by
  obtain ⟨hstores, hend⟩ := fillLoop_inside draw fuel (show len - 12 < 2 ^ 32 by omega)
    (Nat.zero_le _)
  rw [fileFillBuffer, toU64_sub hlo hhi]
  split
  next stores hloop =>
    rw [hloop] at hstores
    exact fun w hw => (hstores w hw).trans_le (Nat.sub_le _ _)
  next stores i hloop =>
    rw [hloop] at hstores hend
    obtain rfl := hend i rfl
    simp only [List.forall_mem_append, Memory.leStores, List.forall_mem_map, List.mem_range]
    exact ⟨⟨fun w hw => (hstores w hw).trans_le (Nat.sub_le _ _), fun k hk => by omega⟩,
      fun k hk => by omega⟩

/-- The loop gets to every index below its bound. -/
theorem exists_mem_fillLoop (draw : ℕ → Byte) {bound fuel i k : ℕ} (hi : i ≤ k)
    (hk : k < i + fuel) (hb : k < bound) (hk' : k < 2 ^ 32) :
    ∃ w ∈ (fillLoop draw bound fuel i).1, w.1 = k := by
  induction fuel generalizing i with
  | zero => omega
  | succ fuel ih =>
    rw [fillLoop, if_pos (by omega)]
    rcases hi.eq_or_lt with rfl | hlt
    · exact ⟨_, List.mem_cons_self, rfl⟩
    · rw [Nat.mod_eq_of_lt (by omega)]
      obtain ⟨w, hw, hwk⟩ := ih (i := i + 1) hlt (by omega)
      exact ⟨w, List.mem_cons_of_mem _ hw, hwk⟩

/-- **A shorter one is not**: the length without the trailer is a huge `size_t`. -/
theorem exists_fileFillBuffer_outside (draw : ℕ → Byte) (buf : Memory) (offset : ℕ)
    (hlen : len < 12) :
    ∃ w ∈ (fileFillBuffer (len + 1) draw buf len offset).1, w.1 = len := by
  have hb : len < toU64 ((len : ℤ) - trailerLength) := by
    unfold toU64 trailerLength
    omega
  obtain ⟨w, hw, hwk⟩ := exists_mem_fillLoop draw (Nat.zero_le len)
    (show len < 0 + (len + 1) by omega) hb (by omega)
  refine ⟨w, ?_, hwk⟩
  rw [fileFillBuffer]
  split
  next stores hloop => rwa [hloop] at hw
  next stores i hloop =>
    rw [hloop] at hw
    exact List.mem_append_left _ (List.mem_append_left _ hw)

/-! ## The files as they are created -/

/-- Byte `x` of a file of blocks of `b` bytes. -/
def fileByte (draw : ℕ → ℕ → Byte) (b x : ℕ) : Byte :=
  blockByte (draw (x / b * b)) b (x / b * b) (x % b)

theorem fileByte_block {draws : ℕ → ℕ → Byte} {b x : ℕ} (j : ℕ) (hx : x < b) :
    fileByte draws b (j * b + x) = blockByte (draws (j * b)) b (j * b) x := by
  have hdiv : (j * b + x) / b = j := by
    rw [mul_comm, Nat.mul_add_div (by omega), Nat.div_eq_of_lt hx, add_zero]
  have hmod : (j * b + x) % b = x := by rw [Nat.mul_add_mod', Nat.mod_eq_of_lt hx]
  rw [fileByte, hdiv, hmod]

/-- A file that holds blocks of `b` bytes, over the size of a file. -/
structure FileStamped (cfg : Config) (b : ℕ) (draw : ℕ → ℕ → Byte) (f : DataFile) : Prop where
  length : cfg.fileSize ≤ f.length
  data : ∀ x < f.length, f.data x = fileByte draw b x

variable {cfg : Config} {b : ℕ}

/-- What remains to be written of a file stays within `long long`. -/
def HasRoom (cfg : Config) (b j written : ℕ) : Prop :=
  ((j * b : ℕ) : ℤ) ≤ roundUp cfg.fileSize b ∧ roundUp cfg.fileSize b < 2 ^ 63 ∧
    written + (roundUp cfg.fileSize b - (j * b : ℕ)) < 2 ^ 63

/-- A stamped block behind stamped blocks. -/
theorem write_stamped {draws : ℕ → ℕ → Byte} {j : ℕ} {f : DataFile}
    (hdata : ∀ x < j * b, f.data x = fileByte draws b x) (buf : Memory) :
    ∀ x < (j + 1) * b, (f.write (j * b) (buf.store
      ((List.range b).map fun x => (x, blockByte (draws (j * b)) b (j * b) x))) b).data x
        = fileByte draws b x := by
  intro x hx
  have hj : (j + 1) * b = j * b + b := by ring
  rw [DataFile.write]
  dsimp only
  split_ifs with hblock
  · obtain ⟨y, rfl⟩ := Nat.exists_eq_add_of_le hblock.1
    rw [Memory.store_range, Nat.add_sub_cancel_left, if_pos (by omega),
      fileByte_block j (by omega)]
  · exact hdata x (by omega)

/-- **One file**: block after block is stamped and written. -/
theorem createFile_stamped (hb : cfg.blockSize = b) (hlo : 12 ≤ b) (hhi : b < 2 ^ 31)
    (hcap : b ≤ bufferSize cfg) (draws : ℕ → ℕ → Byte) (j written : ℕ) (buf : Memory)
    (f : DataFile) (hroom : HasRoom cfg b j written) (hlen : f.length = j * b)
    (hdata : ∀ x < j * b, f.data x = fileByte draws b x) :
    ∃ p, createFile cfg draws (j * b) written buf f = some p ∧
      (p.1 : ℤ) = written + (roundUp cfg.fileSize b - (j * b : ℕ)) ∧
      FileStamped cfg b draws p.2.2 := by
  have hfill : ∀ offset m, fileFillBuffer (2 ^ 32) (draws offset) m (toU32 cfg.blockSize) offset
      = ((List.range b).map fun x => (x, blockByte (draws offset) b offset x), true) := by
    intro offset m
    rw [hb, toU32_of_lt (by omega), fileFillBuffer_eq hlo (by omega) (by omega)]
  have hin : ∀ offset, ∀ w ∈ (List.range b).map
      (fun x => (x, blockByte (draws offset) b offset x)), w.1 < bufferSize cfg := by
    intro offset w hw
    obtain ⟨x, hx, rfl⟩ := List.mem_map.mp hw
    exact (List.mem_range.mp hx).trans_le hcap
  induction hm : cfg.fileSize.toNat - j * b using Nat.strong_induction_on
    generalizing j written buf f with
  | _ m ih =>
    have hdvd : (b : ℤ) ∣ (j * b : ℕ) := by exact_mod_cast Dvd.intro_left j rfl
    obtain ⟨hle, hlt63, hwritten⟩ := hroom
    rw [createFile]
    split_ifs with hlt
    · simp only [hfill]
      have hnext : ((j * b : ℕ) : ℤ) + b ≤ roundUp cfg.fileSize b :=
        add_le_roundUp (by omega) hdvd (by omega)
      have hj : (j + 1) * b = j * b + b := by ring
      rw [hb, if_pos ⟨trivial, hin _, by omega, hnext.trans_lt hlt63⟩, Int.toNat_natCast, ← hj]
      refine (ih _ (by omega) (j + 1) (written + b) _ _ ⟨by omega, hlt63, by omega⟩
        (by simp [DataFile.write, hlen, hj]) (write_stamped hdata buf) rfl).imp
        fun p ⟨hp, hsum, hstamped⟩ => ⟨hp, by omega, hstamped⟩
    · have hend : roundUp cfg.fileSize b ≤ (j * b : ℕ) := roundUp_le (by omega) hdvd (by omega)
      refine ⟨_, rfl, by dsimp only; omega, ⟨?_, fun x hx => hdata x (hlen ▸ hx)⟩⟩
      dsimp only
      omega

/-- All that `create_files` writes stays within `long long`. -/
def FilesRoom (cfg : Config) : Prop :=
  cfg.numFiles * roundUp cfg.fileSize cfg.blockSize < 2 ^ 63

instance (cfg : Config) : Decidable (FilesRoom cfg) := inferInstanceAs (Decidable (_ < _))

theorem roundUp_nonneg (cfg : Config) (hb : 0 < b) : 0 ≤ roundUp cfg.fileSize b := by
  refine mul_nonneg (Int.ediv_nonneg ?_ ?_) ?_ <;> have := fileSize_nonneg cfg <;> omega

/-- There is a file, and so one of them is within `long long` too. -/
theorem FilesRoom.roundUp_lt (h : FilesRoom cfg) : roundUp cfg.fileSize cfg.blockSize < 2 ^ 63 := by
  obtain ⟨b, hb⟩ := Int.eq_ofNat_of_zero_le cfg.blockSize_pos.le
  have hsize := roundUp_nonneg cfg (b := b) (by have := cfg.blockSize_pos; omega)
  rw [FilesRoom, hb] at h
  rw [hb]
  have hn : (1 : ℤ) ≤ cfg.numFiles := by exact_mod_cast cfg.numFiles_pos
  nlinarith

/-- The loop over the files stamps its own and leaves the others. -/
theorem createFilesFrom_stamped (hb : cfg.blockSize = b) (hlo : 12 ≤ b) (hhi : b < 2 ^ 31)
    (hcap : b ≤ bufferSize cfg) (draws : ℕ → ℕ → ℕ → Byte) {is : List ℕ} (hnd : is.Nodup)
    (written : ℕ) (buf : Memory) (files : ℕ → DataFile)
    (hroom : written + is.length * roundUp cfg.fileSize b < 2 ^ 63) :
    ∃ files', createFilesFrom cfg draws is written buf files = some files' ∧
      (∀ i ∈ is, FileStamped cfg b (draws i) (files' i)) ∧ ∀ i ∉ is, files' i = files i := by
  have hsize := roundUp_nonneg cfg (show 0 < b by omega)
  induction is generalizing written buf files with
  | nil => exact ⟨files, rfl, by simp, fun _ _ => rfl⟩
  | cons i is ih =>
    rw [List.length_cons, Nat.cast_succ, add_mul, one_mul] at hroom
    have hrest : 0 ≤ is.length * roundUp cfg.fileSize b := by positivity
    obtain ⟨p, hp, hsum, hstamp⟩ := createFile_stamped hb hlo hhi hcap (draws i) 0 written buf
      ⟨fun _ => 0, 0⟩ ⟨by simpa using hsize, by omega, by rw [Nat.zero_mul]; omega⟩ (by simp)
      (by simp)
    rw [Nat.zero_mul] at hp hsum
    obtain ⟨files', hfiles, hall, hothers⟩ := ih hnd.of_cons p.1 p.2.1
      (Function.update files i p.2.2) (by omega)
    refine ⟨files', ?_, ?_, fun k hk => ?_⟩
    · rw [createFilesFrom, hp]
      exact hfiles
    · refine List.forall_mem_cons.mpr ⟨?_, hall⟩
      rw [hothers i (List.nodup_cons.mp hnd).1, Function.update_self]
      exact hstamp
    · obtain ⟨hne, hk⟩ := not_or.mp (List.mem_cons.not.mp hk)
      rw [hothers k hk, Function.update_of_ne hne]

/-- **`create_files` stamps every file.** -/
theorem createFiles_stamped (hb : cfg.blockSize = b) (hlo : 12 ≤ b) (hhi : b < 2 ^ 31)
    (hcap : b ≤ bufferSize cfg) (hroom : FilesRoom cfg)
    (draws : ℕ → ℕ → ℕ → Byte) (buf : Memory) :
    ∃ files, createFiles cfg draws buf = some files ∧
      ∀ i < cfg.numFiles, FileStamped cfg b (draws i) (files i) := by
  obtain ⟨files, hfiles, hall, -⟩ := createFilesFrom_stamped hb hlo hhi hcap draws
    (List.nodup_range (n := cfg.numFiles)) 0 buf (fun _ => ⟨fun _ => 0, 0⟩)
    (by rw [List.length_range, Nat.cast_zero, zero_add, ← hb]; exact hroom)
  exact ⟨files, hfiles, fun i hi => hall i (List.mem_range.mpr hi)⟩

/-- Where a file has a byte, creating it needs a buffer that holds a block. -/
theorem le_bufferSize_of_createFiles (hb : cfg.blockSize = b) (hlo : 12 ≤ b) (hhi : b < 2 ^ 31)
    (hS : 0 < cfg.fileSize) {draws : ℕ → ℕ → ℕ → Byte} {files : ℕ → DataFile}
    (h : createFiles cfg draws buf = some files) : b ≤ bufferSize cfg := by
  obtain ⟨n, hn⟩ := Nat.exists_eq_add_of_lt cfg.numFiles_pos
  rw [zero_add] at hn
  rw [createFiles, hn, List.range_succ_eq_map, createFilesFrom] at h
  obtain ⟨p, hp, -⟩ := Option.bind_eq_some_iff.mp h
  rw [createFile, if_pos (by omega), hb, toU32_of_lt (by omega),
    fileFillBuffer_eq hlo (by omega) (by omega)] at hp
  dsimp only at hp
  split_ifs at hp with hin
  have hlast := hin.2.1 _ (List.mem_map.mpr ⟨b - 1, List.mem_range.mpr (by omega), rfl⟩)
  dsimp only at hlast
  omega

/-- **What is written for a file that has been created**: its size, rounded up to blocks. -/
theorem written_of_createFile (hb : cfg.blockSize = b) (hb₀ : 0 < b) {draws : ℕ → ℕ → Byte}
    {p : ℕ × Memory × DataFile} (j written : ℕ) (buf : Memory) (f : DataFile)
    (hle : ((j * b : ℕ) : ℤ) ≤ roundUp cfg.fileSize b) (hw : written < 2 ^ 63)
    (h : createFile cfg draws (j * b) written buf f = some p) :
    p.1 < 2 ^ 63 ∧ (p.1 : ℤ) = written + (roundUp cfg.fileSize b - (j * b : ℕ)) := by
  induction hm : cfg.fileSize.toNat - j * b using Nat.strong_induction_on
    generalizing j written buf f with
  | _ m ih =>
    have hdvd : (b : ℤ) ∣ (j * b : ℕ) := by exact_mod_cast Dvd.intro_left j rfl
    have hj : (j + 1) * b = j * b + b := by ring
    rw [createFile] at h
    split_ifs at h with hlt
    · dsimp only at h
      split_ifs at h with hstored
      have hend := hstored.2.2.1
      have hnext : ((j * b : ℕ) : ℤ) + b ≤ roundUp cfg.fileSize b :=
        add_le_roundUp (by omega) hdvd (by omega)
      rw [hb, Int.toNat_natCast, ← hj] at h
      rw [hb] at hend
      obtain ⟨hlt63, hsum⟩ := ih _ (by omega) (j + 1) _ _ _ (by omega) (by omega) h rfl
      exact ⟨hlt63, by omega⟩
    · obtain rfl := Option.some.inj h
      have hend : roundUp cfg.fileSize b ≤ (j * b : ℕ) := roundUp_le (by omega) hdvd (by omega)
      exact ⟨hw, by dsimp only; omega⟩

/-- Files that have been created are no more than `long long` counts. -/
theorem filesRoom_of_createFiles {draws : ℕ → ℕ → ℕ → Byte} {files : ℕ → DataFile}
    (h : createFiles cfg draws buf = some files) : FilesRoom cfg := by
  obtain ⟨b, hb⟩ := Int.eq_ofNat_of_zero_le cfg.blockSize_pos.le
  have hb₀ : 0 < b := by have := cfg.blockSize_pos; omega
  have hsize := roundUp_nonneg cfg hb₀
  have hloop : ∀ (is : List ℕ) (written : ℕ) (buf : Memory) (files files' : ℕ → DataFile),
      written < 2 ^ 63 → createFilesFrom cfg draws is written buf files = some files' →
      written + is.length * roundUp cfg.fileSize b < 2 ^ 63 := by
    intro is
    induction is with
    | nil => exact fun written _ _ _ hw _ => by simpa using hw
    | cons i is ih =>
      intro written buf files files' hw h
      obtain ⟨p, hp, h⟩ := Option.bind_eq_some_iff.mp h
      obtain ⟨hlt, hsum⟩ := written_of_createFile (p := p) hb hb₀ 0 written buf _
        (by simpa using hsize) hw (by rwa [Nat.zero_mul])
      have hrest := ih p.1 p.2.1 _ files' hlt h
      rw [hsum, Nat.zero_mul, Nat.cast_zero, sub_zero] at hrest
      rw [List.length_cons, Nat.cast_succ, add_mul, one_mul]
      omega
  have hall := hloop _ 0 buf _ files (by decide) h
  rw [List.length_range, Nat.cast_zero, zero_add, ← hb] at hall
  exact hall

/-! ## One block passes -/

/-- **A block that was filled is valid.** -/
theorem fileValidateBuffer_block (draw : ℕ → Byte) {cap : ℕ} {m : Memory} (hlo : 12 ≤ len)
    (hhi : len < 2 ^ 32) (hcap : len ≤ cap) (hoff : offset < 2 ^ 64)
    (hm : ∀ x < len, m x = blockByte draw len offset x) :
    fileValidateBuffer cap m len offset = .passed := by
  obtain ⟨n, rfl⟩ := Nat.exists_eq_add_of_le' hlo
  have hbytes : m.bytes 0 n = (List.range n).map draw := by
    refine List.map_congr_left fun k hk => ?_
    have hk := List.mem_range.mp hk
    rw [zero_add, hm k (by omega), blockByte_random hk]
  have hchecksum : m.load 4 n = (crc32 0 ((List.range n).map draw)).toNat := by
    rw [Memory.load_of_bytes fun k hk => by rw [hm _ (by omega), blockByte_checksum hk]]
    exact Nat.mod_eq_of_lt (BitVec.isLt _)
  have hoffset : m.load 8 (n + 4) = offset := by
    rw [Memory.load_of_bytes fun k hk => by rw [hm _ (by omega), blockByte_offset]]
    exact Nat.mod_eq_of_lt (by simpa using hoff)
  rw [fileValidateBuffer, toU32_sub hlo hhi, show n + 12 - 12 = n from rfl]
  dsimp only
  rw [if_neg (by unfold trailerLength; omega), hbytes, hchecksum, hoffset, if_neg (by simp),
    if_neg (by simp)]

/-- What the validation compares with the offset is at the end of the block. -/
theorem offset_of_passed {cap : ℕ} {m : Memory} (hcap : cap < 2 ^ 31) (hhi : len < 2 ^ 32)
    (h : fileValidateBuffer cap m len offset = .passed) :
    12 ≤ len ∧ m.load 8 (len - 8) = offset := by
  unfold fileValidateBuffer at h
  dsimp only at h
  split_ifs at h with hout hsum hoff
  have hlo : 12 ≤ len := by
    by_contra hlt
    unfold toU32 trailerLength at hout
    omega
  rw [toU32_sub hlo hhi, show len - 12 + 4 = len - 8 by omega] at hoff
  exact ⟨hlo, (not_ne_iff.mp hoff).symm⟩

variable {draws : ℕ → ℕ → Byte} {files : ℕ → DataFile} {r : FileRequest} {p n : ℕ}

/-- What a request inside a stamped file finds in its buffer. -/
theorem pread_stamped (buf : Memory) {f : DataFile} (hf : FileStamped cfg b draws f)
    (hin : ((p + n : ℕ) : ℤ) ≤ cfg.fileSize) :
    (f.pread buf n p).1 = n ∧ ∀ x < n, (f.pread buf n p).2 x = fileByte draws b (p + x) := by
  have hlen : p + n ≤ f.length := by exact_mod_cast hin.trans hf.length
  have hmin : min n (f.length - p) = n := by omega
  refine ⟨hmin, fun x hx => ?_⟩
  rw [DataFile.pread]
  dsimp only
  rw [hmin, if_pos hx, hf.data _ (by omega)]

/-- **A request for one block passes**, whatever its random bytes. -/
theorem readPasses_of_block (hlo : 12 ≤ b) (hhi : b < 2 ^ 31) (hcap : b ≤ bufferSize cfg)
    (hf : FileStamped cfg b draws (files r.fileId)) (hsize : r.size = b) (hpos : r.pos = p)
    (hdvd : b ∣ p) (hp : p < 2 ^ 63) (hin : r.pos + r.size ≤ cfg.fileSize) :
    readPasses cfg files buf r := by
  obtain ⟨j, rfl⟩ := hdvd
  rw [mul_comm b j] at hpos hp
  rw [hpos, hsize] at hin
  obtain ⟨hcount, hbuf⟩ := pread_stamped buf hf (p := j * b) (n := b)
    (by exact_mod_cast hin)
  unfold readPasses
  rw [hsize, hpos, Int.toNat_natCast, Int.toNat_natCast, toU32_of_lt (by omega),
    toU64_of_lt (by omega)]
  refine ⟨by rw [hcount], by rw [hcount]; exact hcap, ?_⟩
  refine fileValidateBuffer_block (draws (j * b)) hlo (by omega) hcap (by omega) ?_
  intro x hx
  rw [hbuf x hx, fileByte_block j hx]

/-! ## Anything else fails -/

/-- **A request without bytes does not pass**: the length of its trailer comes round below zero, and
the validation looks outside of the buffer. -/
theorem not_readPasses_of_nonpos (hcap : bufferSize cfg < 2 ^ 31) (hsize : r.size ≤ 0) :
    ¬ readPasses cfg files buf r := by
  rintro ⟨hcount, -, hpass⟩
  have hzero : r.size = 0 := by omega
  rw [hzero, show toU32 0 = 0 from rfl] at hpass
  have := (offset_of_passed hcap (by norm_num) hpass).1
  omega

/-- A request that passes has its own position in the last eight bytes it reads. -/
theorem load_of_readPasses (hcap : bufferSize cfg < 2 ^ 31)
    (hf : FileStamped cfg b draws (files r.fileId)) (hsize : r.size = n) (hpos : r.pos = p)
    (hp : p < 2 ^ 63) (hin : r.pos + r.size ≤ cfg.fileSize) (h : readPasses cfg files buf r) :
    (12 ≤ n ∧ n < 2 ^ 31) ∧ Memory.load (fileByte draws b) 8 (p + n - 8) = p := by
  rw [hpos, hsize] at hin
  obtain ⟨hcount, hbuf⟩ := pread_stamped buf hf (p := p) (n := n) (by exact_mod_cast hin)
  unfold readPasses at h
  rw [hsize, hpos, Int.toNat_natCast, Int.toNat_natCast] at h
  obtain ⟨-, hn, hpass⟩ := h
  rw [hcount] at hn
  rw [toU32_of_lt (by omega), toU64_of_lt (by omega)] at hpass
  obtain ⟨hlo, hload⟩ := offset_of_passed hcap (by omega) hpass
  refine ⟨⟨hlo, hn.trans_lt hcap⟩, Eq.trans (Memory.load_congr fun k hk => ?_) hload⟩
  rw [hbuf _ (by omega), show p + n - 8 + k = p + (n - 8 + k) by omega]

/-- **A request that ends with a block passes only if it is that block**: otherwise the offset it
finds is not its own. -/
theorem block_of_readPasses (hlo : 12 ≤ b) (hcap : bufferSize cfg < 2 ^ 31)
    (hf : FileStamped cfg b draws (files r.fileId)) (hsize : r.size = n) (hpos : r.pos = p)
    (hp : p < 2 ^ 63) (hin : r.pos + r.size ≤ cfg.fileSize) (hend : b ∣ p + n)
    (h : readPasses cfg files buf r) : n = b ∧ b ∣ p := by
  obtain ⟨hn, hload⟩ := load_of_readPasses hcap hf hsize hpos hp hin h
  obtain ⟨c, rfl⟩ := Nat.exists_eq_add_of_le' hlo
  obtain ⟨j, hj⟩ := hend
  obtain ⟨i, rfl⟩ := Nat.exists_eq_succ_of_ne_zero (show j ≠ 0 by rintro rfl; omega)
  rw [Nat.succ_eq_add_one, mul_add, mul_one, mul_comm] at hj
  have hoff : Memory.load (fileByte draws (c + 12)) 8 (p + n - 8) = i * (c + 12) % 256 ^ 8 :=
    Memory.load_of_bytes fun k hk => by
      rw [show p + n - 8 + k = i * (c + 12) + (c + 4 + k) by omega, fileByte_block i (by omega),
        blockByte_offset]
  rw [hload, Nat.mod_eq_of_lt (by omega)] at hoff
  exact ⟨by omega, i, by rw [hoff, mul_comm]⟩

/-- The random bytes that end with `c`, all others zero. -/
def lastByte (b : ℕ) (c : Byte) (_ x : ℕ) : Byte := if x = b - 13 then c else 0

/-- The checksum of such bytes moves its top byte with the last one. -/
theorem checksum_lastByte_ne (b offset : ℕ) :
    blockByte (lastByte (b + 13) 0 offset) (b + 13) offset (b + 1 + 3)
      ≠ blockByte (lastByte (b + 13) 1 offset) (b + 13) offset (b + 1 + 3) := by
  have hmap : ∀ c, (List.range (b + 1)).map (lastByte (b + 13) c offset)
      = (List.range b).map (fun _ => 0) ++ [c] := by
    intro c
    rw [List.range_succ, List.map_append]
    refine congrArg₂ _ (List.map_congr_left fun x hx => ?_) ?_
    · exact if_neg (by have := List.mem_range.mp hx; omega)
    · simp [lastByte]
  have htop : ∀ c : BitVec 32, c.toNat / 256 ^ 3 < 2 ^ 8 := fun c => by
    have := c.isLt
    omega
  intro h
  rw [show b + 13 = b + 1 + 12 from rfl, blockByte_checksum (by decide),
    blockByte_checksum (by decide), show b + 1 + 12 = b + 13 from rfl, hmap, hmap] at h
  have h := congrArg BitVec.toNat h
  rw [BitVec.toNat_ofNat, BitVec.toNat_ofNat, Nat.mod_eq_of_lt (htop _),
    Nat.mod_eq_of_lt (htop _)] at h
  exact crc32_top_ne 0 _ h

/-- **A request for anything but one block fails for some random bytes**, as soon as a block has
any. -/
theorem exists_not_readPasses (hlo : 13 ≤ b) (hcap : bufferSize cfg < 2 ^ 31)
    (hsize : r.size = n) (hpos : r.pos = p) (hp : p < 2 ^ 63)
    (hin : r.pos + r.size ≤ cfg.fileSize) (hne : ¬ (n = b ∧ b ∣ p)) :
    ∃ draws : ℕ → ℕ → Byte, ∀ files buf, FileStamped cfg b draws (files r.fileId) →
      ¬ readPasses cfg files buf r := by
  by_contra! hall
  have hload : ∀ draws,
      (12 ≤ n ∧ n < 2 ^ 31) ∧ Memory.load (fileByte draws b) 8 (p + n - 8) = p := by
    intro draws
    obtain ⟨files, buf, hf, hpass⟩ := hall draws
    exact load_of_readPasses hcap hf hsize hpos hp hin hpass
  have hn := (hload fun _ _ => 0).1
  -- so the last eight bytes do not depend on the random ones
  have hsame : ∀ draws draws' y, p + n - 8 ≤ y → y < p + n →
      fileByte draws b y = fileByte draws' b y := by
    intro draws draws' y hy hy'
    obtain ⟨k, rfl⟩ := Nat.exists_eq_add_of_le hy
    refine BitVec.eq_of_toNat_eq ?_
    rw [Memory.toNat_of_load (n := 8) (by omega), Memory.toNat_of_load (n := 8) (by omega),
      (hload draws).2, (hload draws').2]
  obtain ⟨c, rfl⟩ := Nat.exists_eq_add_of_le' hlo
  obtain ⟨j, o, ho, heq⟩ : ∃ j o, o < c + 13 ∧ p + n - 1 = j * (c + 13) + o :=
    ⟨(p + n - 1) / (c + 13), (p + n - 1) % (c + 13), Nat.mod_lt _ (by omega),
      (Nat.div_add_mod' _ _).symm⟩
  rcases Nat.lt_or_ge o (c + 8) with hrandom | htrailer
  · -- a random byte is among them
    have hmin : min o c < c + 1 := by omega
    have h := hsame (fun _ _ => 0) (fun _ _ => 1) (j * (c + 13) + min o c) (by omega) (by omega)
    rw [fileByte_block j (by omega), fileByte_block j (by omega),
      show c + 13 = c + 1 + 12 from rfl, blockByte_random hmin, blockByte_random hmin] at h
    exact absurd h (by decide)
  rcases Nat.lt_or_ge o (c + 12) with hsum | hlast
  · -- the top byte of the checksum is
    have h := hsame (lastByte (c + 13) 0) (lastByte (c + 13) 1) (j * (c + 13) + (c + 1 + 3))
      (by omega) (by omega)
    rw [fileByte_block j (by omega), fileByte_block j (by omega)] at h
    exact checksum_lastByte_ne c _ h
  · -- the request ends with a block
    obtain ⟨files, buf, hf, hpass⟩ := hall fun _ _ => 0
    refine hne (block_of_readPasses (by omega) hcap hf hsize hpos hp hin ⟨j + 1, ?_⟩ hpass)
    rw [mul_add, mul_one, mul_comm]
    omega

end Sysbench.Fileio
