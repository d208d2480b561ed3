import Sysbench.Fileio.SeqBounds

/-!
# Fileio/SeqOrder — the checker of sequential order, and the pass over a single file

In validation mode `check_seq_req` compares each data request with the one before it: in the same
file the positions have to follow on, and a change of file has to lead from the end of one to the
start of another.  It derives this from the file numbers alone, independently of the cursor.

The two agree at every switch from a file to the next, and at the wrap-around from the last file to
the first, as long as these are two files.  With a single file the wrap-around stays in the file,
and the checker takes it for a jump back: it logs a warning precisely at the start of each pass but
the first (`StartsOver`).
-/

namespace Sysbench.Fileio

variable {cfg : Config} {g : Globals} {s s' : GenState} {r prev : FileRequest} {c : Call}

/-- A call as a move of the generator. -/
def getRequest (cfg : Config) (g : Globals) (s : GenState) (c : Call) : Option GenState :=
  (request cfg g s c).map Prod.snd

/-- **The checker is quiet**: no run in validation mode logs a warning. -/
def SeqOrderQuiet (cfg : Config) : Prop :=
  ∀ (g : Globals) (perThread : ℕ → ℕ × ℤ) (hist : List (GenState × Call)) (s : GenState),
    g.validate = true → Run (getRequest cfg g) (initVars perThread) hist s → s.warnings = []

/-- **The next call starts another pass over the only file**: it is neither past the limit nor an
fsync, and the cursor waits for the rewind. -/
def StartsOver (cfg : Config) (g : Globals) (s : GenState) : Prop :=
  cfg.numFiles = 1 ∧ s.currentFile = cfg.numFiles ∧ limitReached g s = false ∧
    (seqOp cfg = .write && fsyncDue cfg s) = false

/-! ## What the checker remembers

The last data request ends where the cursor stands: in the file of the cursor, or at the end of the
file before. -/

/-- The cursor stands where the request `prev` has left it. -/
inductive Follows (cfg : Config) (s : GenState) (prev : FileRequest) : Prop
  | inside : s.currentFile = prev.fileId → s.position = prev.pos + prev.size → Follows cfg s prev
  | scrolled : s.currentFile = prev.fileId + 1 → s.position = 0 →
      prev.pos + prev.size = cfg.fileSize → Follows cfg s prev

/-- **What holds between two calls**: the cursor is inside, and no request has been made yet or the
last one is a data request that it follows. -/
structure Checked (cfg : Config) (s : GenState) : Prop where
  cursor : Cursor cfg s
  fresh : s.prevReq.operation = .null → s.currentFile = 0
  prev : s.prevReq.operation ≠ .null → s.prevReq.fileId < cfg.numFiles ∧ Follows cfg s s.prevReq

theorem checked_initVars (hS : 0 < cfg.fileSize) (perThread : ℕ → ℕ × ℤ) :
    Checked cfg (initVars perThread) where
  cursor := cursor_initVars hS perThread
  fresh := fun _ => rfl
  prev := fun h => absurd rfl h

/-! ## The successor of a request -/

theorem checkSeqReq_null (h : prev.operation = .null) : checkSeqReq cfg prev r = [] := by
  simp [checkSeqReq, h]

/-- A data request is neither an fsync nor null, so the checker looks at it. -/
theorem FileRequest.isData.checked (hr : r.isData) :
    (r.operation = .fsync || r.operation = .null) = false := by
  unfold FileRequest.isData at hr
  cases hop : r.operation <;> simp_all

/-- Two data requests in one file: the second has to start where the first ends. -/
theorem checkSeqReq_sameFile (hr : r.isData) (hprev : prev.operation ≠ .null)
    (hfile : r.fileId = prev.fileId) :
    checkSeqReq cfg prev r = [] ↔ r.pos - prev.pos = prev.size := by
  have hnear : ¬ 1 < toU32 ((r.fileId : ℤ) - prev.fileId) := by
    rw [hfile, sub_self]
    decide
  unfold checkSeqReq
  rw [FileRequest.isData.checked hr, if_neg Bool.false_ne_true, if_neg hprev,
    if_neg (by simp [hnear]), if_pos hfile]
  by_cases hpos : r.pos - prev.pos = prev.size <;> simp [hpos]

/-- **A switch of files is accepted** from the end of a file to the start of the next, or of the
first file after the last. -/
theorem checkSeqReq_switch (hr : r.isData) (hprev : prev.operation ≠ .null)
    (hfile : r.fileId = prev.fileId + 1 ∨ r.fileId = 0 ∧ prev.fileId = cfg.numFiles - 1)
    (hne : r.fileId ≠ prev.fileId) (hend : prev.pos + prev.size = cfg.fileSize) (hpos : r.pos = 0) :
    checkSeqReq cfg prev r = [] := by
  have hnear : (1 < toU32 ((r.fileId : ℤ) - prev.fileId) &&
      !(r.fileId = 0 && prev.fileId = cfg.numFiles - 1)) = false := by
    rcases hfile with hnext | ⟨h0, hlast⟩
    · have hdiff : (r.fileId : ℤ) - prev.fileId = 1 := by omega
      simp [hdiff, toU32]
    · simp [h0, hlast]
  unfold checkSeqReq
  rw [FileRequest.isData.checked hr, if_neg Bool.false_ne_true, if_neg hprev, hnear,
    if_neg Bool.false_ne_true, if_neg hne, if_neg (by simp [hend, hpos])]

/-! ## One call -/

/-- After the last file the pass is complete: the request before ended the last file. -/
theorem Follows.ended (h : Follows cfg s prev) (hlt : prev.fileId < cfg.numFiles)
    (hwait : s.currentFile = cfg.numFiles) :
    prev.fileId = cfg.numFiles - 1 ∧ prev.pos + prev.size = cfg.fileSize := by
  cases h with
  | inside hcur _ => omega
  | scrolled hcur _ hend => exact ⟨by omega, hend⟩

/-- **The request at the cursor is accepted unless it starts over in the only file.** -/
theorem checkSeqReq_cursor (h : Checked cfg s) (hr : r.isData)
    (hfile : r.fileId = (rewind cfg s).currentFile) (hpos : r.pos = (rewind cfg s).position) :
    checkSeqReq cfg s.prevReq r = [] ↔ ¬ (cfg.numFiles = 1 ∧ s.currentFile = cfg.numFiles) := by
  obtain ⟨⟨hin, hle⟩, hfresh, hprev⟩ := h
  have hn := cfg.numFiles_pos
  by_cases hnull : s.prevReq.operation = .null
  · have h0 := hfresh hnull
    exact iff_of_true (checkSeqReq_null hnull) (by omega)
  obtain ⟨hlt, hfollows⟩ := hprev hnull
  unfold rewind at hfile hpos
  by_cases hwait : s.currentFile = cfg.numFiles
  · rw [if_pos hwait] at hfile hpos
    obtain ⟨hlast, hend⟩ := hfollows.ended hlt hwait
    by_cases hone : cfg.numFiles = 1
    · -- the checker sees a jump from the end of the file to its start
      rw [checkSeqReq_sameFile hr hnull (by rw [hfile, hlast, hone])]
      have hS := hin.1.trans_lt hin.2.1
      exact iff_of_false (by rw [hpos]; dsimp only; omega) (not_not.mpr ⟨hone, hwait⟩)
    · refine iff_of_true ?_ fun hover => hone hover.1
      exact checkSeqReq_switch hr hnull (.inr ⟨hfile, hlast⟩)
        (by rw [hfile, hlast]; dsimp only; omega)
        hend hpos
  · rw [if_neg hwait] at hfile hpos
    refine iff_of_true ?_ fun hover => hwait hover.2
    cases hfollows with
    | inside hcur hat =>
      refine (checkSeqReq_sameFile hr hnull (hfile.trans hcur)).mpr ?_
      rw [hpos, hat]
      ring
    | scrolled hcur hat hend =>
      exact checkSeqReq_switch hr hnull (.inl (hfile.trans hcur)) (by omega) hend (hpos.trans hat)

/-- The cursor stands where the request at it has left it. -/
theorem follows_advance {size : ℤ} (hlt : s.currentFile < cfg.numFiles)
    (hr : r = ⟨s.currentFile, s.position, size, seqOp cfg⟩) :
    Follows cfg (advance cfg size s) r := by
  have hn := cfg.numFiles_lt
  subst hr
  unfold advance
  split
  next hend =>
    refine .scrolled ?_ rfl hend
    change (s.currentFile + 1) % 2 ^ 32 = s.currentFile + 1
    exact Nat.mod_eq_of_lt (by omega)
  next => exact .inside rfl rfl

theorem seqOp_isData {i : ℕ} {p z : ℤ} : (⟨i, p, z, seqOp cfg⟩ : FileRequest).isData := by
  unfold FileRequest.isData seqOp
  split_ifs <;> rfl

theorem seqOp_ne_null : seqOp cfg ≠ .null := by
  unfold seqOp
  split_ifs <;> decide

/-- **A data call**: the warning it logs, and what holds after it. -/
theorem seqData_checked (hT : Tiled cfg) (hv : g.validate = true) (h : Checked cfg s) :
    ∃ new, (seqData cfg g s).2.warnings = s.warnings ++ new ∧
      (new = [] ↔ ¬ (cfg.numFiles = 1 ∧ s.currentFile = cfg.numFiles)) ∧
      Checked cfg (seqData cfg g s).2 := by
  set t := rewind cfg (countRequest (seqOp cfg) s) with ht
  set r : FileRequest := ⟨t.currentFile, t.position, seqSize cfg t, seqOp cfg⟩ with hr
  obtain ⟨-, hlt⟩ : InFile cfg t.position ∧ t.currentFile < cfg.numFiles :=
    rewind_cursor (s := countRequest (seqOp cfg) s) h.cursor
  have hcur := (seqData_inBounds (g := g) hT h.cursor).2
  have hkeep : (advance cfg r.size t).warnings = s.warnings ∧
      (advance cfg r.size t).prevReq = s.prevReq := by
    rw [ht, advance, rewind]
    split_ifs <;> exact ⟨rfl, rfl⟩
  have hdata : (seqData cfg g s).2 =
      { advance cfg r.size t with
        warnings := s.warnings ++ checkSeqReq cfg s.prevReq r
        prevReq := r } := by
    rw [← hkeep.1, ← hkeep.2]
    exact if_pos hv
  rw [hdata] at hcur ⊢
  refine ⟨checkSeqReq cfg s.prevReq r, rfl, ?_, hcur, fun hnull => absurd hnull seqOp_ne_null,
    fun _ => ⟨hlt, ?_⟩⟩
  · refine checkSeqReq_cursor h seqOp_isData ?_ ?_ <;>
    · rw [hr, ht]
      unfold rewind countRequest
      dsimp only
      split_ifs <;> rfl
  · cases follows_advance hlt hr with
    | inside hfile hat => exact .inside hfile hat
    | scrolled hfile hat hend => exact .scrolled hfile hat hend

/-- A call that moves neither the cursor nor what the checker remembers. -/
theorem Checked.congr (h : Checked cfg s) (hpos : s'.position = s.position)
    (hfile : s'.currentFile = s.currentFile) (hprev : s'.prevReq = s.prevReq) : Checked cfg s' := by
  obtain ⟨⟨hin, hle⟩, hfresh, hfollows⟩ := h
  refine ⟨⟨hpos ▸ hin, hfile ▸ hle⟩, fun hnull => hfile.trans (hfresh (hprev ▸ hnull)),
    fun hnull => ?_⟩
  rw [hprev] at hnull ⊢
  obtain ⟨hlt, hfol⟩ := hfollows hnull
  refine ⟨hlt, ?_⟩
  cases hfol with
  | inside hcur hat => exact .inside (hfile.trans hcur) (hpos.trans hat)
  | scrolled hcur hat hend => exact .scrolled (hfile.trans hcur) (hpos.trans hat) hend

/-- The fsyncs leave the cursor, what the checker remembers and the warnings as they are. -/
theorem endRequest_keeps (cfg : Config) (s : GenState) (wanted : Bool) :
    (endRequest cfg wanted s).2.position = s.position ∧
      (endRequest cfg wanted s).2.currentFile = s.currentFile ∧
      (endRequest cfg wanted s).2.prevReq = s.prevReq ∧
      (endRequest cfg wanted s).2.warnings = s.warnings := by
  unfold endRequest
  split_ifs <;> exact ⟨rfl, rfl, rfl, rfl⟩

theorem fsyncRequest_keeps (cfg : Config) (s : GenState) :
    (fsyncRequest cfg s).2.position = s.position ∧
      (fsyncRequest cfg s).2.currentFile = s.currentFile ∧
      (fsyncRequest cfg s).2.prevReq = s.prevReq ∧
      (fsyncRequest cfg s).2.warnings = s.warnings := by
  unfold fsyncRequest
  split_ifs <;> exact ⟨rfl, rfl, rfl, rfl⟩

/-- **A call logs a warning precisely when it starts over in the only file.** -/
theorem fileGetSeqRequest_checked (hT : Tiled cfg) (hv : g.validate = true) (h : Checked cfg s) :
    ∃ new, (fileGetSeqRequest cfg g s).2.warnings = s.warnings ++ new ∧
      (new = [] ↔ ¬ StartsOver cfg g s) ∧ Checked cfg (fileGetSeqRequest cfg g s).2 := by
  unfold fileGetSeqRequest
  split_ifs with hlim hdue
  · obtain ⟨hpos, hfile, hprev, hwarn⟩ :=
      endRequest_keeps cfg s (cfg.fsyncEnd && seqOp cfg = .write)
    refine ⟨[], by rw [hwarn, List.append_nil], iff_of_true rfl fun hover => ?_,
      h.congr hpos hfile hprev⟩
    exact absurd hover.2.2.1 (by simp [hlim])
  · obtain ⟨hpos, hfile, hprev, hwarn⟩ := fsyncRequest_keeps cfg s
    refine ⟨[], by rw [hwarn, List.append_nil], iff_of_true rfl fun hover => ?_,
      h.congr hpos hfile hprev⟩
    exact absurd hover.2.2.2 (by simp [hdue])
  · obtain ⟨new, hwarn, hnew, hnext⟩ := seqData_checked hT hv h
    refine ⟨new, hwarn, ?_, hnext⟩
    rw [hnew, StartsOver]
    simp [hlim, hdue]

/-! ## Whole runs -/

/-- A call in a sequential mode, as a move. -/
theorem getRequest_seq (hseq : cfg.testMode.sequential) (h : getRequest cfg g s c = some s') :
    s' = (fileGetSeqRequest cfg g { s with readOps := c.readOps, writeOps := c.writeOps }).2 := by
  obtain ⟨p, hp, rfl⟩ := Option.map_eq_some_iff.mp h
  exact congrArg Prod.snd (request_seq_eq hseq hp).symm

/-- **The checker is quiet over a run exactly when no call of it starts another pass over an only
file.** -/
theorem seqOrder_warnings_iff (hseq : cfg.testMode.sequential) (hin : SeqInBounds cfg)
    (hv : g.validate = true) {perThread : ℕ → ℕ × ℤ} {hist : List (GenState × Call)}
    (h : Run (getRequest cfg g) (initVars perThread) hist s) :
    s.warnings = [] ↔ ∀ e ∈ hist, ¬ StartsOver cfg g e.1 := by
  have hT := tiled_of_seqInBounds hseq hin
  refine (h.induction (fun hist s => Checked cfg s ∧
    (s.warnings = [] ↔ ∀ e ∈ hist, ¬ StartsOver cfg g e.1))
    ⟨checked_initVars hT.fileSize_pos perThread, by simp [initVars]⟩ ?_).2
  rintro hist s c s' ⟨hchecked, hiff⟩ hmove
  -- the counters the call brings along matter to no part of the sequential generator
  obtain ⟨new, hwarn, hnew, hnext⟩ := fileGetSeqRequest_checked hT hv
    (s := { s with readOps := c.readOps, writeOps := c.writeOps })
    (hchecked.congr rfl rfl rfl)
  rw [← getRequest_seq hseq hmove] at hwarn hnext
  refine ⟨hnext, ?_⟩
  rw [hwarn, List.append_eq_nil_iff, hiff, hnew, List.forall_mem_append, List.forall_mem_singleton]
  rfl

/-- A validating run without a limit. -/
def unlimitedValidating : Globals := { unlimited 1 with validate := true }

/-- A call of the only thread. -/
def anyCall : Call := ⟨0, [], 0, 0⟩

/-- Two files of three blocks, read over and over: the seventh request is back at the start of the
first file, and the checker is quiet. -/
theorem seqOrder_warnings_twoFiles :
    SeqInBounds (twoFiles 0 0) ∧ ∃ hist s,
      Run (getRequest (twoFiles 0 0) unlimitedValidating) (initVars fun _ => (0, 0)) hist s ∧
      hist.length = 7 ∧ s.prevReq = ⟨0, 0, 16, .write⟩ ∧ s.warnings = [] := by
  have hin : SeqInBounds (twoFiles 0 0) :=
    seqInBounds_of_tiled rfl ⟨by decide, fun h => absurd h (by decide), fun _ => ⟨3, rfl⟩⟩
  have h : Run.play (getRequest (twoFiles 0 0) unlimitedValidating) (initVars fun _ => (0, 0))
      (List.replicate 7 anyCall) = some (_, _) := rfl
  have hrun := Run.of_play h
  refine ⟨hin, _, _, hrun, rfl, rfl, ?_⟩
  exact (seqOrder_warnings_iff rfl hin rfl hrun).mpr fun _ _ hover => absurd hover.1 (by decide)

/-- **A single file of two blocks, read twice**: the third request is the first block again, and the
checker takes the new pass for a jump. -/
theorem seqOrder_warning_secondPass :
    ∃ cfg, parseArguments (seqArgs "seqrd" 32 16 0) = .ok cfg ∧ SeqInBounds cfg ∧
      (∃ hist s, Run (getRequest cfg unlimitedValidating) (initVars fun _ => (0, 0)) hist s ∧
        hist.length = 3 ∧
        s.warnings = ["Discovered too large position difference in seq request!"]) ∧
      ¬ SeqOrderQuiet cfg := by
  refine ⟨_, parseArguments_seqArgs rfl (by decide) (by decide) (by decide), ?_, ?_⟩
  · exact seqInBounds_of_tiled rfl ⟨by decide, fun h => absurd h (by decide), fun _ => ⟨2, rfl⟩⟩
  · have h : Run.play
        (getRequest (seqConfig .read 32 16 0 (by decide) (by decide)) unlimitedValidating)
        (initVars fun _ => (0, 0)) (List.replicate 3 anyCall) = some (_, _) := rfl
    have hrun := Run.of_play h
    exact ⟨⟨_, _, hrun, rfl, rfl⟩, fun hquiet =>
      absurd (hquiet unlimitedValidating _ _ _ rfl hrun) (List.cons_ne_nil _ _)⟩

end Sysbench.Fileio
