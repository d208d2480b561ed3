import Sysbench.Machinery.MachineInt
import Sysbench.Machinery.Rounding

/-!
# Fileio/Options — the settings of the file I/O test

`parse_arguments` reads the `--file-*` options and either rejects them or leaves the settings every
other function of the test reads.  `Config` is those settings with what the checks guarantee:
a `Config` exists only where the checks passed.
-/

namespace Sysbench.Fileio

/-- `sb_cmd_t`. -/
inductive Command
  | null
  | prepare
  | run
  | cleanup
  | help
  | version
  deriving DecidableEq, Repr

/-- `file_test_mode_t`. -/
inductive TestMode
  | read
  | write
  | rewrite
  | rndRead
  | rndWrite
  | rndRw
  | mixed
  deriving DecidableEq, Repr

/-- `file_fsync_mode_t`. -/
inductive FsyncMode
  | all
  | data
  deriving DecidableEq, Repr

/-- `file_io_mode_t`. -/
inductive IoMode
  | sync
  | async
  | mmap
  deriving DecidableEq, Repr

/-- `file_flags_t`. -/
inductive ExtraFlags
  | normal
  | sync
  | dsync
  | directio
  deriving DecidableEq, Repr

/-- The modes `file_get_request` serves with the sequential generator. -/
def TestMode.sequential : TestMode → Bool
  | .write | .rewrite | .read => true
  | _ => false

/-- What the option library answers for each option of the test, with the build's switches.  A
string option that was never set is a null pointer, and a ratio is a `float`, so a double. -/
structure Args where
  command : Command
  fileNum : ℤ
  fileTotalSize : ℕ
  fileTestMode : Option String
  fileIoMode : Option String
  fileMergedRequests : ℤ
  fileBlockSize : ℕ
  fileExtraFlags : Option String
  fileFsyncFreq : ℤ
  fileFsyncEnd : Bool
  fileFsyncAll : Bool
  fileFsyncMode : String
  fileRwRatio : ℚ
  fileRwRatio_double : IsDouble fileRwRatio
  haveLibaio : Bool
  haveMmap : Bool
  haveFdatasync : Bool

/-- **The settings of a test whose arguments were accepted.**  The sizes are `long long`,
`num_files` is `unsigned int`, the ratio `float`, the rest `int`. -/
structure Config where
  numFiles : ℕ
  totalSize : ℤ
  fileSize : ℤ
  testMode : TestMode
  ioMode : IoMode
  mergedRequests : ℤ
  blockSize : ℤ
  maxRequestSize : ℤ
  extraFlags : ExtraFlags
  fsyncFreq : ℤ
  fsyncEnd : Bool
  fsyncAll : Bool
  fsyncMode : FsyncMode
  rwRatio : ℚ
  numFiles_pos : 0 < numFiles
  numFiles_lt : numFiles < 2 ^ 32
  totalSize_pos : 0 < totalSize
  totalSize_lt : totalSize < 2 ^ 63
  fileSize_eq : fileSize = totalSize / numFiles
  mergedRequests_nonneg : 0 ≤ mergedRequests
  blockSize_pos : 0 < blockSize
  maxRequestSize_eq :
    maxRequestSize = if 0 < mergedRequests then toI32 (blockSize * mergedRequests) else blockSize
  fsyncFreq_nonneg : 0 ≤ fsyncFreq
  rwRatio_double : IsDouble rwRatio
  rwRatio_nonneg : 0 ≤ rwRatio

/-- The default of `--file-merged-requests` passes its check. -/
theorem defaultMergedRequests_nonneg : (0 : ℤ) ≤ 0 := le_rfl

/-- The default of `--file-rw-ratio` passes its check. -/
theorem defaultRwRatio_nonneg : (0 : ℚ) ≤ 3 / 2 := by norm_num

theorem defaultRwRatio_double : IsDouble (3 / 2) := by
  unfold IsDouble
  decide +kernel

/-! ## The string options -/

/-- `--file-test-mode`.  It is read for the `run` command only; otherwise `test_mode` keeps the
zero of its static initialisation. -/
def parseTestMode (command : Command) (mode : Option String) : Except String TestMode :=
  if command = .run then
    match mode with
    | none => .error "Missing required argument: --file-test-mode"
    | some "seqwr" => .ok .write
    | some "seqrewr" => .ok .rewrite
    | some "seqrd" => .ok .read
    | some "rndrd" => .ok .rndRead
    | some "rndwr" => .ok .rndWrite
    | some "rndrw" => .ok .rndRw
    | some mode => .error ("Invalid IO operations mode: " ++ mode ++ ".")
  else .ok .read

/-- `--file-io-mode`, on a build with or without `libaio` and `mmap`. -/
def parseIoMode (haveLibaio haveMmap : Bool) (mode : Option String) : Except String IoMode :=
  match mode.getD "sync" with
  | "sync" => .ok .sync
  | "async" =>
    if haveLibaio then .ok .async
    else .error "asynchronous I/O mode is unsupported on this platform."
  | "mmap" =>
    if haveMmap then .ok .mmap else .error "mmap'ed I/O mode is unsupported on this platform."
  | mode => .error ("unknown I/O mode: " ++ mode)

/-- `--file-extra-flags`. -/
def parseExtraFlags (mode : Option String) : Except String ExtraFlags :=
  match mode.getD "" with
  | "" => .ok .normal
  | "sync" => .ok .sync
  | "dsync" => .ok .dsync
  | "direct" => .ok .directio
  | mode => .error ("Invalid value for file-extra-flags: " ++ mode)

/-- `--file-fsync-mode`, on a build with or without `fdatasync`. -/
def parseFsyncMode (haveFdatasync : Bool) : String → Except String FsyncMode
  | "fsync" => .ok .all
  | "fdatasync" =>
    if haveFdatasync then .ok .data else .error "fdatasync() is unavailable on this platform"
  | mode => .error ("Invalid fsync mode: " ++ mode ++ ".")

/-! ## `parse_arguments` -/

/-- `parse_arguments`: the checks in source order, each with its message.  The conversions are those
of the assignments: `num_files` is unsigned, `total_size` signed 64-bit, the block size and its
product with the merge factor signed 32-bit. -/
def parseArguments (a : Args) : Except String Config := do
  let numFiles := toU32 a.fileNum
  let totalSize := toI64 a.fileTotalSize
  let blockSize := toI32 a.fileBlockSize
  if hn : numFiles = 0 then .error ("Invalid value for file-num: " ++ toString numFiles)
  else if ht : totalSize ≤ 0 then
    .error ("Invalid value for file-total-size: " ++ toString totalSize)
  else
    let testMode ← parseTestMode a.command a.fileTestMode
    let ioMode ← parseIoMode a.haveLibaio a.haveMmap a.fileIoMode
    if hm : a.fileMergedRequests < 0 then
      .error ("Invalid value for file-merged-requests: " ++ toString a.fileMergedRequests ++ ".")
    else if hb : blockSize ≤ 0 then
      .error ("Invalid value for file-block-size: " ++ toString blockSize ++ ".")
    else
      let extraFlags ← parseExtraFlags a.fileExtraFlags
      if hf : a.fileFsyncFreq < 0 then
        .error ("Invalid value for file-fsync-freq: " ++ toString a.fileFsyncFreq ++ ".")
      else
        let fsyncMode ← parseFsyncMode a.haveFdatasync a.fileFsyncMode
        if hr : a.fileRwRatio < 0 then
          .error ("Invalid value file file-rw-ratio: " ++ toString a.fileRwRatio ++ ".")
        else
          return {
            numFiles, totalSize, testMode, ioMode, blockSize, extraFlags, fsyncMode,
            fileSize := totalSize / numFiles
            mergedRequests := a.fileMergedRequests
            maxRequestSize :=
              if 0 < a.fileMergedRequests then toI32 (blockSize * a.fileMergedRequests)
              else blockSize
            -- `file-fsync-all` overrides the other two fsync options
            fsyncFreq := if a.fileFsyncAll then 0 else a.fileFsyncFreq
            fsyncEnd := !a.fileFsyncAll && a.fileFsyncEnd
            fsyncAll := a.fileFsyncAll
            rwRatio := a.fileRwRatio
            numFiles_pos := Nat.pos_of_ne_zero hn
            numFiles_lt := toU32_lt _
            totalSize_pos := not_le.mp ht
            totalSize_lt := toI64_lt _
            fileSize_eq := rfl
            mergedRequests_nonneg := not_lt.mp hm
            blockSize_pos := not_le.mp hb
            maxRequestSize_eq := rfl
            fsyncFreq_nonneg := by split <;> omega
            rwRatio_double := a.fileRwRatio_double
            rwRatio_nonneg := not_lt.mp hr
          }

/-- **What an accepted test was asked for**: the settings are the options, stored. -/
structure Stored (a : Args) (cfg : Config) : Prop where
  numFiles : cfg.numFiles = toU32 a.fileNum
  totalSize : cfg.totalSize = toI64 a.fileTotalSize
  blockSize : cfg.blockSize = toI32 a.fileBlockSize
  mergedRequests : cfg.mergedRequests = a.fileMergedRequests
  testMode : parseTestMode a.command a.fileTestMode = .ok cfg.testMode

theorem stored_of_parseArguments {a : Args} {cfg : Config} (h : parseArguments a = .ok cfg) :
    Stored a cfg := by
  unfold parseArguments at h
  obtain ⟨hn, h⟩ := except_check_eq_ok h
  obtain ⟨ht, h⟩ := except_check_eq_ok h
  obtain ⟨testMode, hmode, h⟩ := except_bind_eq_ok.mp h
  obtain ⟨ioMode, -, h⟩ := except_bind_eq_ok.mp h
  obtain ⟨hm, h⟩ := except_check_eq_ok h
  obtain ⟨hb, h⟩ := except_check_eq_ok h
  obtain ⟨extraFlags, -, h⟩ := except_bind_eq_ok.mp h
  obtain ⟨hf, h⟩ := except_check_eq_ok h
  obtain ⟨fsyncMode, -, h⟩ := except_bind_eq_ok.mp h
  obtain ⟨hr, h⟩ := except_check_eq_ok h
  obtain rfl := Except.ok.inj h
  exact ⟨rfl, rfl, rfl, rfl, hmode⟩

theorem Stored.blockSize_lt {a : Args} {cfg : Config} (h : Stored a cfg) :
    cfg.blockSize < 2 ^ 31 := h.blockSize ▸ toI32_lt _

end Sysbench.Fileio
