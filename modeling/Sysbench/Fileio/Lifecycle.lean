import Sysbench.Fileio.SeqOrder
import Sysbench.Fileio.Validation

/-!
# Fileio/Lifecycle — `prepare`, `run` and `cleanup`, one after the other

The test files outlive the invocation that made them.  `prepare` creates `test_file.0` and so on, or
extends what is there; `run` opens them and moves data in them; `cleanup` unlinks them.  The mode of
the test is read for `run` alone, so `prepare` never takes its branch for the sequential write test,
and `run` in that mode unlinks the first file and then opens it without creating it.

A directory is the sizes of the test files.  What the system calls answer is part of an invocation.
-/

namespace Sysbench.Fileio

/-- The sizes of the test files; where it is `none` there is no `test_file.i`. -/
abbrev Directory := ℕ → Option ℕ

/-- The flags of `open` the platform has. -/
structure Platform where
  dsync : Bool
  direct : Bool
  deriving DecidableEq

/-- `convert_extra_flags`: whether the flags can be had. -/
def convertExtraFlags (p : Platform) : ExtraFlags → Bool
  | .normal | .sync => true
  | .dsync => p.dsync
  | .directio => p.direct

/-- What the system calls answer: `open` with `O_CREAT` on each file, the bytes of each `write` on
it, `none` where it fails, and whether the file can be mapped. -/
structure Kernel where
  creates : ℕ → Bool
  writes : ℕ → ℕ → Option ℕ
  maps : ℕ → Bool

/-! ## `prepare` and `cleanup` -/

/-- The loop of `create_files` over the blocks of one file: whether it came to its end, and the size
it leaves.  `offset` goes on by a block whatever was written, a short write is not noticed. -/
def writeBlocks (cfg : Config) (writes : ℕ → Option ℕ) (k size offset : ℕ) : Bool × ℕ :=
  if offset < cfg.fileSize.toNat then
    match writes k with
    | none => (false, size)
    | some n =>
      writeBlocks cfg writes (k + 1) (size + min n cfg.blockSize.toNat)
        (offset + cfg.blockSize.toNat)
  else (true, size)
termination_by cfg.fileSize.toNat - offset
decreasing_by
  have := cfg.blockSize_pos
  omega

/-- The loop of `create_files` over the files: a file is opened, made where it was not there, and
written from its end on. -/
def createFrom (cfg : Config) (k : Kernel) : List ℕ → Directory → Bool × Directory
  | [], d => (true, d)
  | i :: is, d =>
    if k.creates i then
      let size := (d i).getD 0
      let p := writeBlocks cfg (k.writes i) 0 size size
      if p.1 then createFrom cfg k is (Function.update d i (some p.2))
      else (false, Function.update d i (some p.2))
    else (false, d)

/-- `create_files`, on the files that are there. -/
def extendFiles (p : Platform) (cfg : Config) (k : Kernel) (d : Directory) : Bool × Directory :=
  if convertExtraFlags p cfg.extraFlags then createFrom cfg k (List.range cfg.numFiles) d
  else (false, d)

/-- The loop of `remove_files`. -/
def unlinkAll : List ℕ → Directory → Directory
  | [], d => d
  | i :: is, d => unlinkAll is (Function.update d i none)

/-- `remove_files`. -/
def removeFiles (cfg : Config) (d : Directory) : Bool × Directory :=
  (true, unlinkAll (List.range cfg.numFiles) d)

/-- `file_cmd_prepare`, past `parse_arguments`. -/
def fileCmdPrepare (p : Platform) (cfg : Config) (k : Kernel) (d : Directory) : Bool × Directory :=
  if cfg.testMode = .write then removeFiles cfg d else extendFiles p cfg k d

/-- `file_cmd_cleanup`, past `parse_arguments`. -/
def fileCmdCleanup (cfg : Config) (d : Directory) : Bool × Directory := removeFiles cfg d

/-! ## `run` -/

/-- `sb_open`: without `O_CREAT` there has to be a file. -/
def sbOpen (p : Platform) (cfg : Config) (d : Directory) (i : ℕ) : Bool :=
  convertExtraFlags p cfg.extraFlags && (d i).isSome

/-- The loop of `file_prepare`. -/
def openFrom (p : Platform) (cfg : Config) : List ℕ → Directory → Bool × Directory
  | [], d => (true, d)
  | i :: is, d =>
    let d := if cfg.testMode = .write then Function.update d i none else d
    if sbOpen p cfg d i then openFrom p cfg is d else (false, d)

/-- `file_mmap_prepare`: in the sequential write test the files are given their size first. -/
def fileMmapPrepare (cfg : Config) (k : Kernel) (d : Directory) : Bool × Directory :=
  if cfg.ioMode = .mmap then
    ((List.range cfg.numFiles).all k.maps,
      if cfg.testMode = .write then
        fun i => if i < cfg.numFiles then some cfg.fileSize.toNat else d i
      else d)
  else (true, d)

/-- `file_prepare`. -/
def filePrepare (p : Platform) (cfg : Config) (k : Kernel) (d : Directory) : Bool × Directory :=
  let q := openFrom p cfg (List.range cfg.numFiles) d
  if q.1 then fileMmapPrepare cfg k q.2 else q

/-- `file_execute_request` with synchronous I/O and no validation: whether it succeeds, and the
files after it.  `n` is how many bytes the kernel writes.  Past the end of `files[]` there is no
descriptor of a test file. -/
def fileExecuteRequest (cfg : Config) (d : Directory) (r : FileRequest) (n : ℕ) :
    Bool × Directory :=
  match checkRequestParameters cfg r with
  | .error _ => (false, d)
  | .ok f =>
    match if f < cfg.numFiles then d f else none with
    | none => (false, d)
    | some size =>
      match r.operation with
      | .null => (false, d)
      | .fsync => (true, d)
      | .read => ((min r.size.toNat (size - r.pos.toNat) : ℕ) = r.size, d)
      | .write =>
        let n := min n r.size.toNat
        ((n : ℤ) = r.size,
          if n = 0 then d else Function.update d f (some (max size (r.pos.toNat + n))))

/-- The requests of a run, in the order they are executed: whether all succeed, and the files after
them. -/
def serve (cfg : Config) : List (FileRequest × ℕ) → Directory → Bool × Directory
  | [], d => (true, d)
  | e :: es, d =>
    let p := fileExecuteRequest cfg d e.1 e.2
    ((serve cfg es p.2).1 && p.1, (serve cfg es p.2).2)

/-! ## Invocations -/

/-- One invocation of the program: its options, what the system calls answer, and for `run` the
requests its threads execute, each with the bytes the kernel writes. -/
structure Invocation where
  args : Args
  kernel : Kernel
  requests : List (FileRequest × ℕ)

/-- The `run` command: the requests are executed where `file_prepare` succeeds. -/
def fileRun (p : Platform) (cfg : Config) (k : Kernel) (requests : List (FileRequest × ℕ))
    (d : Directory) : Bool × Directory :=
  let q := filePrepare p cfg k d
  if q.1 then serve cfg requests q.2 else q

/-- What an invocation makes of the files. -/
def invoke (p : Platform) (d : Directory) (i : Invocation) : Option Directory :=
  match parseArguments i.args with
  | .error _ => some d
  | .ok cfg =>
    match i.args.command with
    | .prepare => some (fileCmdPrepare p cfg i.kernel d).2
    | .run => some (fileRun p cfg i.kernel i.requests d).2
    | .cleanup => some (fileCmdCleanup cfg d).2
    | _ => some d

section Sizes

variable {p : Platform} {cfg : Config} {k : Kernel} {d d' d'' : Directory} {i n : ℕ}

/-! ## Files that only grow -/

/-- From one directory to the next no file is made or lost, and those below `n` may have grown. -/
def Grown (n : ℕ) (d d' : Directory) : Prop :=
  ∀ i, d' i = d i ∨ i < n ∧ ∃ size size', d i = some size ∧ d' i = some size' ∧ size ≤ size'

theorem Grown.refl (n : ℕ) (d : Directory) : Grown n d d := fun _ => Or.inl rfl

theorem Grown.trans (h : Grown n d d') (h' : Grown n d' d'') : Grown n d d'' := by
  intro i
  rcases h' i with he' | ⟨hi, u, v, hu, hv, huv⟩
  · rw [he']
    exact h i
  · rcases h i with he | ⟨-, s, t, hs, ht, hst⟩
    · exact Or.inr ⟨hi, u, v, he ▸ hu, hv, huv⟩
    · obtain rfl := Option.some.inj (ht.symm.trans hu)
      exact Or.inr ⟨hi, s, v, hs, hv, hst.trans huv⟩

theorem Grown.none_iff (h : Grown n d d') (i : ℕ) : d' i = none ↔ d i = none := by
  rcases h i with he | ⟨-, s, t, hs, ht, -⟩
  · rw [he]
  · simp [hs, ht]

theorem Grown.outside (h : Grown n d d') (hi : n ≤ i) : d' i = d i := by
  rcases h i with he | ⟨hlt, -⟩
  · exact he
  · omega

theorem Grown.update {size size' : ℕ} (hi : i < n) (h : d i = some size) (hle : size ≤ size') :
    Grown n d (Function.update d i (some size')) := by
  intro j
  rcases eq_or_ne j i with rfl | hne
  · exact Or.inr ⟨hi, size, size', h, Function.update_self .., hle⟩
  · exact Or.inl (Function.update_of_ne hne _ _)

/-- **A request leaves every file at least as large as it was.** -/
theorem fileExecuteRequest_grown (cfg : Config) (d : Directory) (r : FileRequest) (m : ℕ) :
    Grown cfg.numFiles d (fileExecuteRequest cfg d r m).2 := by
  unfold fileExecuteRequest
  split
  next => exact Grown.refl _ _
  next f _ =>
    split
    next => exact Grown.refl _ _
    next size hsize =>
      obtain ⟨hf, hd⟩ : f < cfg.numFiles ∧ d f = some size := by
        split_ifs at hsize with hf
        exact ⟨hf, hsize⟩
      cases r.operation with
      | null | fsync | read => exact Grown.refl _ _
      | write =>
        dsimp only
        split_ifs
        · exact Grown.refl _ _
        · exact Grown.update hf hd (le_max_left _ _)

theorem serve_grown (cfg : Config) :
    ∀ (es : List (FileRequest × ℕ)) (d : Directory), Grown cfg.numFiles d (serve cfg es d).2
  | [], d => Grown.refl _ d
  | e :: es, d => (fileExecuteRequest_grown cfg d e.1 e.2).trans (serve_grown cfg es _)

/-! ## What `run` opens -/

/-- The sequential write test unlinks its first file, and then has none to open. -/
theorem filePrepare_write (hmode : cfg.testMode = .write) :
    filePrepare p cfg k d = (false, Function.update d 0 none) := by
  obtain ⟨n, hn⟩ := Nat.exists_eq_succ_of_ne_zero cfg.numFiles_pos.ne'
  have hopen : openFrom p cfg (List.range cfg.numFiles) d = (false, Function.update d 0 none) := by
    rw [hn, List.range_succ_eq_map, openFrom]
    simp [hmode, sbOpen]
  rw [filePrepare, hopen]
  simp

theorem openFrom_of_ne (hmode : cfg.testMode ≠ .write) :
    ∀ is : List ℕ, (openFrom p cfg is d).2 = d ∧
      ((openFrom p cfg is d).1 = true ↔ ∀ i ∈ is, sbOpen p cfg d i = true)
  | [] => by simp [openFrom]
  | i :: is => by
      obtain ⟨hd, hiff⟩ := openFrom_of_ne hmode is
      rw [openFrom, if_neg hmode]
      split_ifs with hi
      · exact ⟨hd, by simp [hiff, hi]⟩
      · exact ⟨rfl, by simp [hi]⟩

/-- **In any other mode `run` opens its files exactly when they are there** and the platform has the
flags and the mappings; the files stay as they are. -/
theorem filePrepare_of_ne (hmode : cfg.testMode ≠ .write) :
    (filePrepare p cfg k d).2 = d ∧ ((filePrepare p cfg k d).1 = true ↔
      (∀ i < cfg.numFiles, sbOpen p cfg d i = true) ∧
        (cfg.ioMode = .mmap → ∀ i < cfg.numFiles, k.maps i = true)) := by
  obtain ⟨hd, hiff⟩ := openFrom_of_ne (p := p) (d := d) hmode (List.range cfg.numFiles)
  simp only [List.mem_range] at hiff
  unfold filePrepare
  dsimp only
  split_ifs with hopen
  · rw [hd, fileMmapPrepare, if_neg hmode, ← hiff]
    split_ifs with hio
    · simp [hopen, hio]
    · simp [hopen, hio]
  · exact ⟨hd, by simp [← hiff, hopen]⟩

/-- **A run other than of the sequential write test makes and loses no file.** -/
theorem fileRun_grown (hmode : cfg.testMode ≠ .write) (requests : List (FileRequest × ℕ)) :
    Grown cfg.numFiles d (fileRun p cfg k requests d).2 := by
  obtain ⟨hd, -⟩ := filePrepare_of_ne (p := p) (k := k) (d := d) hmode
  unfold fileRun
  dsimp only
  split_ifs
  · rw [hd]
    exact serve_grown cfg requests d
  · rw [hd]
    exact Grown.refl _ d

theorem fileRun_write (hmode : cfg.testMode = .write) (requests : List (FileRequest × ℕ)) :
    fileRun p cfg k requests d = (false, Function.update d 0 none) := by
  rw [fileRun, filePrepare_write hmode]
  simp

/-! ## What `prepare` makes -/

theorem le_writeBlocks (writes : ℕ → Option ℕ) (j size offset : ℕ) :
    size ≤ (writeBlocks cfg writes j size offset).2 := by
  fun_induction writeBlocks cfg writes j size offset with
  | case1 => rfl
  | case2 _ _ _ _ _ _ ih => exact le_trans (Nat.le_add_right _ _) ih
  | case3 => rfl

/-- **A file whose writes are full has its size** when the loop ends. -/
theorem fileSize_le_writeBlocks {writes : ℕ → Option ℕ} {j size offset : ℕ}
    (hfull : ∀ j n, writes j = some n → cfg.blockSize ≤ n)
    (hdone : (writeBlocks cfg writes j size offset).1 = true) (hle : offset ≤ size) :
    cfg.fileSize.toNat ≤ (writeBlocks cfg writes j size offset).2 := by
  fun_induction writeBlocks cfg writes j size offset with
  | case1 => cases hdone
  | case2 j size offset hlt n hn ih =>
    have hn := hfull j n hn
    exact ih hdone (by omega)
  | case3 => simp_all; omega

/-- Every file of the directory is still there, and no smaller. -/
def Kept (d d' : Directory) : Prop :=
  ∀ i size, d i = some size → ∃ size', d' i = some size' ∧ size ≤ size'

theorem Kept.trans (h : Kept d d') (h' : Kept d' d'') : Kept d d'' := by
  intro i size hsize
  obtain ⟨t, ht, hst⟩ := h i size hsize
  obtain ⟨u, hu, htu⟩ := h' i t ht
  exact ⟨u, hu, hst.trans htu⟩

theorem Grown.kept (h : Grown n d d') : Kept d d' := by
  intro i size hsize
  rcases h i with he | ⟨-, s, t, hs, ht, hst⟩
  · exact ⟨size, he ▸ hsize, le_rfl⟩
  · obtain rfl := Option.some.inj (hsize.symm.trans hs)
    exact ⟨t, ht, hst⟩

/-- Where `create_files` has opened a file, it is there with what was written. -/
theorem kept_update {size : ℕ} (h : (d i).getD 0 ≤ size) :
    Kept d (Function.update d i (some size)) := by
  intro j s hs
  rcases eq_or_ne j i with rfl | hne
  · refine ⟨size, Function.update_self .., ?_⟩
    simpa [hs] using h
  · exact ⟨s, (Function.update_of_ne hne _ _).trans hs, le_rfl⟩

theorem createFrom_kept (cfg : Config) (k : Kernel) :
    ∀ (is : List ℕ) (d : Directory), Kept d (createFrom cfg k is d).2
  | [], d => (Grown.refl 0 d).kept
  | i :: is, d => by
      have hle : (d i).getD 0 ≤
          (writeBlocks cfg (k.writes i) 0 ((d i).getD 0) ((d i).getD 0)).2 :=
        le_writeBlocks ..
      have hup := kept_update hle
      rw [createFrom]
      split_ifs
      · dsimp only
        split_ifs
        · exact hup.trans (createFrom_kept cfg k is _)
        · exact hup
      · exact (Grown.refl 0 d).kept

theorem createFrom_outside (cfg : Config) (k : Kernel) :
    ∀ (is : List ℕ) (d : Directory), i ∉ is → (createFrom cfg k is d).2 i = d i
  | [], _, _ => rfl
  | j :: is, d, hi => by
      obtain ⟨hne, hi⟩ := not_or.mp (List.mem_cons.not.mp hi)
      rw [createFrom]
      split_ifs
      · dsimp only
        split_ifs
        · rw [createFrom_outside cfg k is _ hi, Function.update_of_ne hne]
        · exact Function.update_of_ne hne _ _
      · rfl

/-- All writes of an invocation are as long as they were asked to be. -/
def Kernel.writesFull (k : Kernel) (cfg : Config) : Prop :=
  ∀ i j n, k.writes i j = some n → cfg.blockSize ≤ n

/-- The files a run is made for are there, and large enough. -/
def Covers (cfg : Config) (d : Directory) : Prop :=
  ∀ i < cfg.numFiles, ∃ size, d i = some size ∧ cfg.fileSize.toNat ≤ size

theorem createFrom_covers (hfull : k.writesFull cfg) :
    ∀ (is : List ℕ) (d : Directory), (createFrom cfg k is d).1 = true →
      ∀ i ∈ is, ∃ size, (createFrom cfg k is d).2 i = some size ∧ cfg.fileSize.toNat ≤ size
  | [], _, _ => by simp
  | i :: is, d, hdone => by
      rw [createFrom] at hdone ⊢
      split_ifs at hdone ⊢
      dsimp only at hdone ⊢
      split_ifs at hdone ⊢ with hblocks
      refine List.forall_mem_cons.mpr ⟨?_, createFrom_covers hfull is _ hdone⟩
      obtain ⟨size, hsize, hle⟩ := createFrom_kept cfg k is _ i _ (Function.update_self ..)
      exact ⟨size, hsize, (fileSize_le_writeBlocks (hfull i) hblocks le_rfl).trans hle⟩

theorem Covers.of_kept (h : Covers cfg d) (hkept : Kept d d') : Covers cfg d' := by
  intro i hi
  obtain ⟨size, hsize, hle⟩ := h i hi
  obtain ⟨size', hsize', hle'⟩ := hkept i size hsize
  exact ⟨size', hsize', hle.trans hle'⟩

/-! ## What `cleanup` removes -/

theorem unlinkAll_apply :
    ∀ (is : List ℕ) (d : Directory) (i : ℕ), unlinkAll is d i = if i ∈ is then none else d i
  | [], _, _ => by simp [unlinkAll]
  | j :: is, d, i => by
      rw [unlinkAll, unlinkAll_apply is]
      rcases eq_or_ne i j with rfl | hne
      · simp
      · simp [hne]

theorem removeFiles_apply (cfg : Config) (d : Directory) (i : ℕ) :
    (removeFiles cfg d).2 i = if i < cfg.numFiles then none else d i := by
  simp [removeFiles, unlinkAll_apply]

end Sizes

/-! ## A run after a `prepare` -/

section Runs

variable {p : Platform} {a a₀ : Args} {cfg c₀ : Config} {k k₀ : Kernel} {d d₀ : Directory}
  {g : Globals} {s : GenState} {outs : List (Option FileRequest)}
  {hist : List (Directory × Invocation)}

/-- Requests that move data stay inside the files: the condition is that of the generator of the
mode. -/
def Aligned (cfg : Config) : Prop :=
  if cfg.testMode.sequential then Tiled cfg
  else (cfg.numFiles * cfg.blockSize : ℤ) ∣ cfg.totalSize

/-- A request every open test file of the right size can serve: an fsync, or data inside of it. -/
def Servable (cfg : Config) (r : FileRequest) : Prop :=
  (∃ i < cfg.numFiles, r = fsyncOf i) ∨ r.isData ∧ 0 < r.size ∧ InBounds cfg r

/-- What a call leaves: the next periodic fsync is of a file of the test, and so is this one. -/
def FsyncsFiles (cfg : Config) (q : Option FileRequest × GenState) : Prop :=
  q.2.fsyncedFile < cfg.numFiles ∧ ∀ r, q.1 = some r → r.isData ∨ ∃ i < cfg.numFiles, r = fsyncOf i

theorem endRequest_fsyncs (wanted : Bool) (hfile : s.fsyncedFile < cfg.numFiles) :
    FsyncsFiles cfg (endRequest cfg wanted s) := by
  unfold endRequest
  split_ifs with hc
  · refine ⟨hfile, fun r hr => Or.inr ⟨s.fsyncedFile2, ?_, (Option.some.inj hr).symm⟩⟩
    simpa using (Bool.and_eq_true_iff.mp hc).2
  · exact ⟨hfile, by simp⟩

theorem fsyncRequest_fsyncs (hfile : s.fsyncedFile < cfg.numFiles) :
    FsyncsFiles cfg (fsyncRequest cfg s) := by
  refine ⟨?_, fun r hr => Or.inr ⟨_, hfile, (Option.some.inj hr).symm⟩⟩
  unfold fsyncRequest
  dsimp only
  split_ifs with hc
  · exact cfg.numFiles_pos
  · exact lt_of_le_of_ne hfile hc

theorem fileGetSeqRequest_fsyncs (hfile : s.fsyncedFile < cfg.numFiles) :
    FsyncsFiles cfg (fileGetSeqRequest cfg g s) := by
  unfold fileGetSeqRequest
  split_ifs
  · exact endRequest_fsyncs _ hfile
  · exact fsyncRequest_fsyncs hfile
  · have hs : (seqData cfg g s).2.fsyncedFile = s.fsyncedFile :=
      congrArg Sched.fsyncedFile (sched_seqData cfg g s)
    exact ⟨hs.symm ▸ hfile, fun r hr => Or.inl (Option.some.inj hr ▸ seqOp_isData)⟩

theorem fileGetRndRequest_fsyncs {threadId : ℕ} {draws : List ℤ} {q : Option FileRequest × GenState}
    (hfile : s.fsyncedFile < cfg.numFiles) (h : fileGetRndRequest cfg g threadId draws s = .ok q) :
    FsyncsFiles cfg q := by
  unfold fileGetRndRequest at h
  split_ifs at h
  · exact Except.ok.inj h ▸ endRequest_fsyncs _ hfile
  · exact Except.ok.inj h ▸ fsyncRequest_fsyncs hfile
  · obtain ⟨block, -, h⟩ := except_bind_eq_ok.mp h
    obtain rfl := Except.ok.inj h
    exact ⟨hfile, fun r hr => Or.inl (Option.some.inj hr ▸ rndOp_isData s _ _ _)⟩

/-- **Every request of an aligned run can be served.** -/
theorem servable_of_trace (h : Stored a cfg) (hal : Aligned cfg) {perThread : ℕ → ℕ × ℤ}
    (htr : Trace (drawnRequest cfg g) (initVars perThread) outs s) :
    ∀ r, some r ∈ outs → Servable cfg r := by
  refine (htr.invariant (fun outs s => (∀ r, some r ∈ outs → Servable cfg r) ∧
    s.fsyncedFile < cfg.numFiles ∧ (cfg.testMode.sequential → Cursor cfg s))
    ⟨by simp, cfg.numFiles_pos, fun hseq => ?_⟩ ?_).1
  · exact cursor_initVars (by rw [Aligned, if_pos hseq] at hal; exact hal.fileSize_pos) perThread
  intro outs s c o s' ⟨hall, hfile, hcur⟩ hstep
  unfold drawnRequest at hstep
  split_ifs at hstep with hdraws
  have hnew (hF : FsyncsFiles cfg (o, s'))
      (hdata : ∀ r, o = some r → r.isData → 0 < r.size ∧ InBounds cfg r) :
      ∀ r, some r ∈ outs ++ [o] → Servable cfg r := by
    intro r hmem
    rcases List.mem_append.mp hmem with hmem | hmem
    · exact hall r hmem
    · obtain rfl := List.mem_singleton.mp hmem
      exact (hF.2 r rfl).elim (fun hd => Or.inr ⟨hd, hdata r rfl hd⟩) Or.inl
  rcases Bool.eq_false_or_eq_true cfg.testMode.sequential with hseq | hrnd
  · rw [Aligned, if_pos hseq] at hal
    have hF := fileGetSeqRequest_fsyncs (g := g)
      (s := { s with readOps := c.readOps, writeOps := c.writeOps }) hfile
    obtain ⟨hin, hcur'⟩ := fileGetSeqRequest_inBounds (g := g)
      (s := { s with readOps := c.readOps, writeOps := c.writeOps }) hal (hcur hseq)
    rw [request_seq_eq hseq hstep] at hF hin hcur'
    exact ⟨hnew hF hin, hF.1, fun _ => hcur'⟩
  · rw [Aligned, if_neg (by simp [hrnd])] at hal
    have hreq := request_rnd hrnd hstep
    have hF : FsyncsFiles cfg (o, s') := fileGetRndRequest_fsyncs
      (s := { s with readOps := c.readOps, writeOps := c.writeOps }) hfile hreq
    refine ⟨hnew hF fun r hr hd => ?_, hF.1, fun hseq => absurd hseq (by simp [hrnd])⟩
    obtain ⟨t, ht, htr, hsize⟩ := rndRequest_data (hr ▸ hreq) hd
    obtain ⟨f, q, hfq, hf, hq, hqS⟩ := rndBlock_of_dvd h hal (hdraws t ht).1 (hdraws t ht).2
    obtain ⟨rfl, rfl⟩ := by simpa [hfq] using htr
    exact ⟨hsize ▸ cfg.blockSize_pos, inBounds_of_lt hf hq (hsize ▸ hqS)⟩

/-- **Files that are large enough serve what can be served**, with a kernel that writes in full. -/
theorem fileExecuteRequest_servable {r : FileRequest} {m : ℕ} (hd : Covers cfg d)
    (hr : Servable cfg r) (hm : r.size ≤ m) : (fileExecuteRequest cfg d r m).1 = true := by
  rcases hr with ⟨i, hi, rfl⟩ | ⟨hdata, hpos, hf, hp, hle, hcheck⟩
  · obtain ⟨size, hsize, -⟩ := hd i hi
    obtain ⟨-, -, -, hcheck⟩ := inBounds_of_lt (r := fsyncOf i) hi le_rfl (fileSize_nonneg cfg)
    rw [fileExecuteRequest, hcheck]
    simp [hi, hsize, fsyncOf]
  · obtain ⟨size, hsize, hS⟩ := hd _ hf
    rw [fileExecuteRequest, hcheck]
    simp only [hf, if_true, hsize]
    cases hop : r.operation with
    | null | fsync => simp [FileRequest.isData, hop] at hdata
    | read =>
      simp only [decide_eq_true_eq]
      omega
    | write =>
      simp only [decide_eq_true_eq]
      omega

/-- **Files that are large enough serve a whole run.** -/
theorem serve_servable :
    ∀ {es : List (FileRequest × ℕ)} {d : Directory}, Covers cfg d →
      (∀ e ∈ es, Servable cfg e.1 ∧ e.1.size ≤ e.2) → (serve cfg es d).1 = true
  | [], _, _, _ => rfl
  | e :: es, d, hd, hes => by
      obtain ⟨⟨hr, hm⟩, hes⟩ := List.forall_mem_cons.mp hes
      have hd' := hd.of_kept (fileExecuteRequest_grown cfg d e.1 e.2).kept
      simp [serve, serve_servable hd' hes, fileExecuteRequest_servable hd hr hm]

/-! ## Whole histories -/

/-- What an invocation can do to the files. -/
inductive InvokeStep (p : Platform) (d : Directory) (i : Invocation) : Directory → Prop
  | idle : InvokeStep p d i d
  | prepare {cfg : Config} (hcfg : parseArguments i.args = .ok cfg)
      (hcmd : i.args.command = .prepare) :
      InvokeStep p d i (extendFiles p cfg i.kernel d).2
  | run {cfg : Config} {d' : Directory} (hcfg : parseArguments i.args = .ok cfg)
      (hcmd : i.args.command = .run) (hd : Grown cfg.numFiles d d') : InvokeStep p d i d'
  | seqwr {cfg : Config} (hcfg : parseArguments i.args = .ok cfg)
      (hcmd : i.args.command = .run) (hmode : cfg.testMode = .write) :
      InvokeStep p d i (Function.update d 0 none)
  | cleanup {cfg : Config} (hcfg : parseArguments i.args = .ok cfg)
      (hcmd : i.args.command = .cleanup) : InvokeStep p d i (removeFiles cfg d).2

/-- The mode of the test is read for `run` alone. -/
theorem Stored.testMode_of_ne (h : Stored a cfg) (hcmd : a.command ≠ .run) :
    cfg.testMode = .read := by
  have hmode := h.testMode
  simp only [parseTestMode, hcmd, if_false] at hmode
  exact (Except.ok.inj hmode).symm

theorem invokeStep_of_invoke {i : Invocation} {d' : Directory} (h : invoke p d i = some d') :
    InvokeStep p d i d' := by
  unfold invoke at h
  split at h
  next => exact Option.some.inj h ▸ .idle
  next cfg hcfg =>
    cases hcmd : i.args.command with
    | null | help | version =>
      rw [hcmd] at h
      exact Option.some.inj h ▸ .idle
    | prepare =>
      rw [hcmd] at h
      have hread := (stored_of_parseArguments hcfg).testMode_of_ne (by simp [hcmd])
      rw [fileCmdPrepare, if_neg (by simp [hread])] at h
      exact Option.some.inj h ▸ .prepare hcfg hcmd
    | run =>
      rw [hcmd] at h
      by_cases hmode : cfg.testMode = .write
      · rw [fileRun_write hmode] at h
        exact Option.some.inj h ▸ .seqwr hcfg hcmd hmode
      · exact Option.some.inj h ▸ .run hcfg hcmd (fileRun_grown hmode _)
    | cleanup =>
      rw [hcmd] at h
      exact Option.some.inj h ▸ .cleanup hcfg hcmd

/-- The invocation unlinks test files. -/
def Invocation.removes (i : Invocation) : Bool :=
  match parseArguments i.args with
  | .error _ => false
  | .ok cfg => i.args.command = .cleanup || cfg.testMode = .write

theorem extendFiles_kept (p : Platform) (cfg : Config) (k : Kernel) (d : Directory) :
    Kept d (extendFiles p cfg k d).2 := by
  unfold extendFiles
  split_ifs
  · exact createFrom_kept cfg k _ d
  · exact (Grown.refl 0 d).kept

theorem invoke_kept {i : Invocation} {d' : Directory} (hkeep : i.removes = false)
    (h : invoke p d i = some d') : Kept d d' := by
  unfold Invocation.removes at hkeep
  cases invokeStep_of_invoke h with
  | idle => exact (Grown.refl 0 d).kept
  | prepare hcfg hcmd => exact extendFiles_kept p _ i.kernel d
  | run hcfg hcmd hd => exact hd.kept
  | seqwr hcfg hcmd hmode => simp [hcfg, hmode] at hkeep
  | cleanup hcfg hcmd => simp [hcfg, hcmd] at hkeep

/-- **A complete `prepare` lasts** until something is unlinked. -/
theorem covers_of_prepared (hcmd₀ : a₀.command = .prepare) (h₀ : parseArguments a₀ = .ok c₀)
    (hdone : (fileCmdPrepare p c₀ k₀ d₀).1 = true) (hfull : k₀.writesFull c₀)
    (hrun : Run (invoke p) (fileCmdPrepare p c₀ k₀ d₀).2 hist d)
    (hkeep : ∀ e ∈ hist, e.2.removes = false)
    (hn : cfg.numFiles ≤ c₀.numFiles) (hS : cfg.fileSize ≤ c₀.fileSize) : Covers cfg d := by
  have hread := (stored_of_parseArguments h₀).testMode_of_ne (by simp [hcmd₀])
  rw [fileCmdPrepare, if_neg (by simp [hread]), extendFiles] at hdone hrun
  split_ifs at hdone hrun
  have hcover : Covers c₀ d := by
    refine Run.invariant (Covers c₀) (fun e => e.2.removes = false) (fun i hi => ?_)
      (fun d i d' hd hi hs => hd.of_kept (invoke_kept hi hs)) hrun hkeep
    exact createFrom_covers hfull _ _ hdone i (List.mem_range.mpr hi)
  intro i hi
  obtain ⟨size, hsize, hle⟩ := hcover i (hi.trans_le hn)
  exact ⟨size, hsize, (Int.toNat_le_toNat hS).trans hle⟩

/-- **A run after a `prepare` serves every request.**  A `prepare` came to its end, its writes full;
whatever was invoked since has unlinked nothing.  Then a synchronous run on no more and no larger
files opens them, if its flags are there to be had; and where its requests tile the files and the
kernel writes them in full, all the requests of its generator succeed, in any order. -/
theorem prepared_run_serves (hcmd₀ : a₀.command = .prepare) (h₀ : parseArguments a₀ = .ok c₀)
    (hdone : (fileCmdPrepare p c₀ k₀ d₀).1 = true) (hfull : k₀.writesFull c₀)
    (hrun : Run (invoke p) (fileCmdPrepare p c₀ k₀ d₀).2 hist d)
    (hkeep : ∀ e ∈ hist, e.2.removes = false) (h : parseArguments a = .ok cfg)
    (hn : cfg.numFiles ≤ c₀.numFiles) (hS : cfg.fileSize ≤ c₀.fileSize)
    (hmode : cfg.testMode ≠ .write) (hio : cfg.ioMode = .sync)
    (hflags : convertExtraFlags p cfg.extraFlags = true) (hal : Aligned cfg)
    {perThread : ℕ → ℕ × ℤ} (htr : Trace (drawnRequest cfg g) (initVars perThread) outs s)
    {es : List (FileRequest × ℕ)} (hes : ∀ e ∈ es, some e.1 ∈ outs ∧ e.1.size ≤ e.2) :
    (filePrepare p cfg k d).1 = true ∧ (fileRun p cfg k es d).1 = true := by
  have hcover : Covers cfg d := covers_of_prepared hcmd₀ h₀ hdone hfull hrun hkeep hn hS
  obtain ⟨hd, hopen⟩ := filePrepare_of_ne (p := p) (k := k) (d := d) hmode
  have hok : (filePrepare p cfg k d).1 = true := by
    refine hopen.mpr ⟨fun i hi => ?_, fun hmap => absurd (hio.symm.trans hmap) (by simp)⟩
    obtain ⟨size, hsize, -⟩ := hcover i hi
    simp [sbOpen, hflags, hsize]
  refine ⟨hok, ?_⟩
  rw [fileRun]
  simp only [hok, if_true, hd]
  refine serve_servable hcover fun e he => ⟨?_, (hes e he).2⟩
  exact servable_of_trace (stored_of_parseArguments h) hal htr e.1 (hes e he).1

/-- Two blocks of sixteen bytes are a total size. -/
theorem twoBlocks_size : 0 < 32 ∧ 32 < 2 ^ 63 := by norm_num

theorem twoBlocks_block : 0 < 16 := Nat.succ_pos 15

/-- Two blocks of sixteen bytes in one file. -/
def twoBlocks : Config := seqConfig .read 32 16 0 twoBlocks_size twoBlocks_block

def prepareArgs : Args := { seqArgs "seqrd" 32 16 0 with command := .prepare }

theorem parseArguments_prepareArgs : parseArguments prepareArgs = .ok twoBlocks := by
  have hr : ¬ (3 / 2 : ℚ) < 0 := by norm_num
  have h1 : toU32 1 = 1 := rfl
  have h2 : toI64 32 = 32 := rfl
  have h3 : toI32 16 = 16 := rfl
  simp [parseArguments, prepareArgs, seqArgs, rndrdArgs, parseTestMode, parseIoMode,
    parseExtraFlags, parseFsyncMode, bind, Except.bind, pure, Except.pure, hr, h1, h2, h3,
    twoBlocks, seqConfig, rndrdConfig]

/-- A kernel that does all it is asked for. -/
def willing : Kernel := ⟨fun _ => true, fun _ _ => some 16, fun _ => true⟩

/-- The directory `prepare` leaves where there was none of the files. -/
theorem fileCmdPrepare_willing :
    fileCmdPrepare ⟨true, true⟩ twoBlocks willing (fun _ => none)
      = (true, Function.update (fun _ => none) 0 (some 32)) := by
  simp [fileCmdPrepare, extendFiles, convertExtraFlags, createFrom, writeBlocks, twoBlocks,
    seqConfig, rndrdConfig, willing, List.range_succ]

/-- Both blocks are read, the second first. -/
theorem prepared_run_serves_twoBlocks :
    (fileRun ⟨true, true⟩ twoBlocks willing [(⟨0, 16, 16, .read⟩, 16), (⟨0, 0, 16, .read⟩, 16)]
      (Function.update (fun _ => none) 0 (some 32))).1 = true := by
  have htr : Trace.play (drawnRequest twoBlocks (unlimited 1)) (initVars fun _ => (0, 0))
      [anyCall, anyCall]
      = some ([some ⟨0, 0, 16, .read⟩, some ⟨0, 16, 16, .read⟩], _) := rfl
  have hrun : Run (invoke ⟨true, true⟩)
      (fileCmdPrepare ⟨true, true⟩ twoBlocks willing fun _ => none).2 []
      (Function.update (fun _ => none) 0 (some 32)) := by
    rw [fileCmdPrepare_willing]
    exact Trace.nil
  refine (prepared_run_serves (k := willing) rfl parseArguments_prepareArgs
    (by rw [fileCmdPrepare_willing])
    (fun _ _ n hn => Int.ofNat_le.mpr (Option.some.inj hn).le) hrun (by simp)
    parseArguments_prepareArgs le_rfl le_rfl (by decide) rfl rfl ?_ (Trace.of_play htr) ?_).2
  · exact ⟨by decide, fun h => absurd h (by decide), fun _ => ⟨2, rfl⟩⟩
  · decide

/-- Files that are large enough are reused. -/
theorem createFrom_reuses (hcreate : ∀ i, k.creates i = true) :
    ∀ is : List ℕ, (∀ i ∈ is, ∃ size, d i = some size ∧ cfg.fileSize.toNat ≤ size) →
      createFrom cfg k is d = (true, d)
  | [], _ => rfl
  | i :: is, hd => by
      obtain ⟨⟨size, hsize, hle⟩, hd⟩ := List.forall_mem_cons.mp hd
      have hsame : Function.update d i (some size) = d := by rw [← hsize, Function.update_eq_self]
      have hblocks : writeBlocks cfg (k.writes i) 0 size size = (true, size) := by
        unfold writeBlocks
        exact if_neg (not_lt.mpr hle)
      rw [createFrom, if_pos (hcreate i), hsize, Option.getD_some]
      simp only [hblocks, if_true, hsame]
      exact createFrom_reuses hcreate is hd

/-- **Preparing again writes nothing.**  After a complete `prepare`, and as long as nothing was
unlinked, a `prepare` of no more and no larger files that can open them leaves every file as it is,
whatever `write` would answer. -/
theorem prepare_reuses (hcmd₀ : a₀.command = .prepare) (h₀ : parseArguments a₀ = .ok c₀)
    (hdone : (fileCmdPrepare p c₀ k₀ d₀).1 = true) (hfull : k₀.writesFull c₀)
    (hrun : Run (invoke p) (fileCmdPrepare p c₀ k₀ d₀).2 hist d)
    (hkeep : ∀ e ∈ hist, e.2.removes = false) (hcmd : a.command = .prepare)
    (h : parseArguments a = .ok cfg) (hn : cfg.numFiles ≤ c₀.numFiles)
    (hS : cfg.fileSize ≤ c₀.fileSize) (hflags : convertExtraFlags p cfg.extraFlags = true)
    (hcreate : ∀ i, k.creates i = true) : fileCmdPrepare p cfg k d = (true, d) := by
  have hcover : Covers cfg d := covers_of_prepared hcmd₀ h₀ hdone hfull hrun hkeep hn hS
  have hread := (stored_of_parseArguments h).testMode_of_ne (by simp [hcmd])
  rw [fileCmdPrepare, if_neg (by simp [hread]), extendFiles, if_pos hflags]
  exact createFrom_reuses hcreate _ fun i hi => hcover i (List.mem_range.mp hi)

/-- The second `prepare` succeeds on a full disk. -/
theorem prepare_reuses_fullDisk :
    fileCmdPrepare ⟨true, true⟩ twoBlocks { willing with writes := fun _ _ => none }
      (Function.update (fun _ => none) 0 (some 32))
      = (true, Function.update (fun _ => none) 0 (some 32)) := by
  have hrun : Run (invoke ⟨true, true⟩)
      (fileCmdPrepare ⟨true, true⟩ twoBlocks willing fun _ => none).2 []
      (Function.update (fun _ => none) 0 (some 32)) := by
    rw [fileCmdPrepare_willing]
    exact Trace.nil
  exact prepare_reuses rfl parseArguments_prepareArgs (by rw [fileCmdPrepare_willing])
    (fun _ _ n hn => Int.ofNat_le.mpr (Option.some.inj hn).le) hrun (by simp) rfl
    parseArguments_prepareArgs le_rfl le_rfl rfl fun _ => rfl

/-- **The sequential write test never runs, and takes the other tests with it.**  It unlinks
`test_file.0` and fails; and until the next `prepare` no run in any mode opens its files. -/
theorem seqwr_loses_files (hmode : cfg.testMode = .write) (d : Directory)
    (requests : List (FileRequest × ℕ)) :
    (fileRun p cfg k requests d).1 = false ∧
      ∀ hist d', Run (invoke p) (fileRun p cfg k requests d).2 hist d' →
        (∀ e ∈ hist, e.2.args.command ≠ .prepare) →
        ∀ cfg' k', (filePrepare p cfg' k' d').1 = false := by
  rw [fileRun_write hmode]
  refine ⟨rfl, fun hist d' hrun hnone cfg' k' => ?_⟩
  change Run (invoke p) (Function.update d 0 none) hist d' at hrun
  have hgone : d' 0 = none := by
    refine Run.invariant (fun d => d 0 = none) (fun e => e.2.args.command ≠ .prepare)
      (Function.update_self ..) (fun d i d' hd hi hs => ?_) hrun hnone
    cases invokeStep_of_invoke hs with
    | idle => exact hd
    | prepare hcfg hcmd => exact absurd hcmd hi
    | run hcfg hcmd hg => exact (hg.none_iff 0).mpr hd
    | seqwr hcfg hcmd hmode => exact Function.update_self ..
    | cleanup hcfg hcmd => rw [removeFiles_apply, hd, ite_self]
  by_cases hw : cfg'.testMode = .write
  · rw [filePrepare_write hw]
  · obtain ⟨-, hopen⟩ := filePrepare_of_ne (p := p) (k := k') (d := d') hw
    refine Bool.eq_false_iff.mpr fun h => ?_
    have := (hopen.mp h).1 0 cfg'.numFiles_pos
    simp [sbOpen, hgone] at this

/-- After one attempt at `seqwr`, `seqrd` has lost its file too. -/
theorem seqwr_loses_files_twoBlocks :
    (filePrepare ⟨true, true⟩ twoBlocks willing
      (fileRun ⟨true, true⟩ (seqConfig .write 32 16 0 twoBlocks_size twoBlocks_block) willing []
        (Function.update (fun _ => none) 0 (some 32))).2).1 = false :=
  (seqwr_loses_files rfl _ []).2 [] _ Trace.nil (by simp) twoBlocks willing

/-- **`cleanup` leaves nothing of the invocations before it.**  Whatever they did, on no more files
than it is told of, its own files are gone and all others are as at the start. -/
theorem cleanup_restores (hrun : Run (invoke p) d₀ hist d)
    (hle : ∀ e ∈ hist, ∀ c, parseArguments e.2.args = .ok c → c.numFiles ≤ cfg.numFiles) :
    (fileCmdCleanup cfg d).2 = fun i => if i < cfg.numFiles then none else d₀ i := by
  have hout : ∀ i, cfg.numFiles ≤ i → d i = d₀ i := by
    refine Run.invariant (fun d => ∀ i, cfg.numFiles ≤ i → d i = d₀ i)
      (fun e => ∀ c, parseArguments e.2.args = .ok c → c.numFiles ≤ cfg.numFiles)
      (fun _ _ => rfl) (fun d inv d' hd hle hs i hi => ?_) hrun hle
    rw [← hd i hi]
    have hpos := cfg.numFiles_pos
    cases invokeStep_of_invoke hs with
    | idle => rfl
    | prepare hcfg hcmd =>
      unfold extendFiles
      split_ifs
      · exact createFrom_outside _ _ _ _ (by simpa using (hle _ hcfg).trans hi)
      · rfl
    | run hcfg hcmd hg => exact hg.outside ((hle _ hcfg).trans hi)
    | seqwr hcfg hcmd hmode => exact Function.update_of_ne (by omega) _ _
    | cleanup hcfg hcmd => rw [removeFiles_apply, if_neg (not_lt.mpr ((hle _ hcfg).trans hi))]
  funext i
  rw [fileCmdCleanup, removeFiles_apply]
  split_ifs with hi
  · rfl
  · exact hout i (not_lt.mp hi)

theorem invoke_prepareArgs :
    invoke ⟨true, true⟩ (fun _ => none) ⟨prepareArgs, willing, []⟩
      = some (Function.update (fun _ => none) 0 (some 32)) := by
  have hcmd : prepareArgs.command = .prepare := rfl
  simp only [invoke, parseArguments_prepareArgs, hcmd, fileCmdPrepare_willing]

/-- The file of a `prepare` is gone. -/
theorem cleanup_restores_twoBlocks :
    (fileCmdCleanup twoBlocks (Function.update (fun _ => none) 0 (some 32))).2
      = fun i => if i < twoBlocks.numFiles then none else none := by
  refine cleanup_restores (Run.snoc Trace.nil invoke_prepareArgs) fun e he c hc => ?_
  obtain rfl := List.mem_singleton.mp he
  obtain rfl := Except.ok.inj (parseArguments_prepareArgs.symm.trans hc)
  exact le_rfl

end Runs

end Sysbench.Fileio
