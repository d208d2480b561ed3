import Sysbench.Fileio.Requests
import Sysbench.Machinery.Traces

/-!
# Fileio/FsyncSchedule — when the generators ask for an fsync

The sequential and the random generator duplicate one schedule: past the limit a final series of
fsyncs and then null requests; before it, a periodic series whenever something was written and the
request counter is at a multiple of the frequency; a data request otherwise.  `Sched.Step` is that
schedule on its four counters alone, and every call of either generator is one of its steps
(`step_of_fileGetRequest`).

A series advances without advancing the request counter, so the condition that started it keeps
holding until it ends: this is the invariant `Sched.Inv` carries, next to the shape of the answers
given so far.
-/

namespace Sysbench.Fileio

/-! ## The answers of a run -/

/-- The first `j` requests of a series of fsyncs. -/
def series (j : ℕ) : List (Option FileRequest) := (List.range j).map fun i => some (fsyncOf i)

/-- Data requests and complete series over `n` files, in any order. -/
inductive Periodic (n : ℕ) : List (Option FileRequest) → Prop
  | nil : Periodic n []
  | data {l : List (Option FileRequest)} {r : FileRequest} :
      Periodic n l → r.isData → Periodic n (l ++ [some r])
  | series {l : List (Option FileRequest)} : Periodic n l → Periodic n (l ++ series n)

/-- The number of data requests. -/
def dataCount (outs : List (Option FileRequest)) : ℕ := outs.countP fun o => o.any (·.isData)

/-- The number of writes since the last series over `n` files was completed. -/
def writesSince (n : ℕ) (outs : List (Option FileRequest)) : ℕ :=
  outs.foldl (fun w o =>
    if o = some (fsyncOf (n - 1)) then 0 else if o.any (·.operation = .write) then w + 1 else w) 0

theorem series_succ (j : ℕ) : series (j + 1) = series j ++ [some (fsyncOf j)] := by
  simp [series, List.range_succ]

@[simp] theorem series_zero : series 0 = [] := rfl

@[simp] theorem length_series (j : ℕ) : (series j).length = j := by simp [series]

@[simp] theorem dataCount_append (l l' : List (Option FileRequest)) :
    dataCount (l ++ l') = dataCount l + dataCount l' := List.countP_append

@[simp] theorem dataCount_fsync (i : ℕ) : dataCount [some (fsyncOf i)] = 0 := rfl

@[simp] theorem dataCount_null : dataCount [none] = 0 := rfl

theorem dataCount_data {r : FileRequest} (h : r.isData) : dataCount [some r] = 1 := by
  simp [dataCount, h]

theorem writesSince_null (n : ℕ) (outs : List (Option FileRequest)) :
    writesSince n (outs ++ [none]) = writesSince n outs := by
  simp [writesSince]

theorem writesSince_fsync (n i : ℕ) (outs : List (Option FileRequest)) :
    writesSince n (outs ++ [some (fsyncOf i)])
      = if i = n - 1 then 0 else writesSince n outs := by
  simp [writesSince, fsyncOf]

theorem writesSince_data {n : ℕ} {r : FileRequest} (outs : List (Option FileRequest))
    (h : r.isData) :
    writesSince n (outs ++ [some r])
      = writesSince n outs + if r.operation = .write then 1 else 0 := by
  have hr : r ≠ fsyncOf (n - 1) := by rintro rfl; simp [FileRequest.isData, fsyncOf] at h
  simp only [writesSince, List.foldl_append, List.foldl_cons, List.foldl_nil, Option.some.injEq, hr,
    if_false, Option.any_some, decide_eq_true_eq]
  split <;> rfl

/-! ## The schedule -/

/-- The numbers the schedule depends on: files, frequency, limit, and whether a final series is
wanted. -/
structure Rules where
  n : ℕ
  f : ℕ
  M : ℕ
  wanted : Bool
  n_pos : 0 < n
  f_pos : 0 < f
  M_lt : M < 2 ^ 32

/-- The counters of the schedule. -/
structure Sched where
  fsyncedFile : ℕ
  fsyncedFile2 : ℕ
  isDirty : Bool
  reqPerformed : ℕ

namespace Sched

variable {R : Rules} {s s' : Sched} {o : Option FileRequest} {outs : List (Option FileRequest)}

/-- The limit is reached. -/
def Limit (R : Rules) (s : Sched) : Prop := 0 < R.M ∧ R.M ≤ s.reqPerformed

/-- A periodic series is due, or under way. -/
def Due (R : Rules) (s : Sched) : Prop := s.isDirty = true ∧ s.reqPerformed % R.f = 0

/-- **One call**: what is answered, and the counters after it. -/
inductive Step (R : Rules) (s : Sched) : Option FileRequest → Sched → Prop
  | final : s.Limit R → R.wanted = true → s.fsyncedFile2 < R.n →
      Step R s (some (fsyncOf s.fsyncedFile2)) { s with fsyncedFile2 := s.fsyncedFile2 + 1 }
  | null : s.Limit R → (R.wanted = true → R.n ≤ s.fsyncedFile2) → Step R s none s
  | series : ¬ s.Limit R → s.Due R → s.fsyncedFile + 1 < R.n →
      Step R s (some (fsyncOf s.fsyncedFile)) { s with fsyncedFile := s.fsyncedFile + 1 }
  | seriesEnd : ¬ s.Limit R → s.Due R → s.fsyncedFile + 1 = R.n →
      Step R s (some (fsyncOf s.fsyncedFile)) { s with fsyncedFile := 0, isDirty := false }
  | data {r : FileRequest} : ¬ s.Limit R → ¬ s.Due R → r.isData →
      Step R s (some r)
        { s with
          reqPerformed := (s.reqPerformed + 1) % 2 ^ 32
          isDirty := s.isDirty || r.operation = .write }

/-- The writes a state can still owe an fsync. -/
def owed (R : Rules) (s : Sched) : ℕ :=
  if s.isDirty then if s.reqPerformed % R.f = 0 then R.f else s.reqPerformed % R.f else 0

/-- The fsyncs a started or due series has left. -/
def left (R : Rules) (s : Sched) : ℕ := if s.isDirty then R.n - s.fsyncedFile else 0

/-- **The invariant of a run**: the shape of the answers, and what each counter has counted. -/
structure Inv (R : Rules) (outs : List (Option FileRequest)) (s : Sched) : Prop where
  shape : ∃ main z, outs = main ++ series s.fsyncedFile ++ series s.fsyncedFile2
      ++ List.replicate z none ∧ Periodic R.n main ∧
    (0 < z → s.Limit R ∧ (R.wanted = true → R.n ≤ s.fsyncedFile2)) ∧
    main.length + s.fsyncedFile + s.left R ≤ dataCount outs * (R.n + 1)
  file_lt : s.fsyncedFile < R.n
  inSeries : 0 < s.fsyncedFile → s.Due R ∧ ¬ s.Limit R
  file2_le : s.fsyncedFile2 ≤ R.n
  inFinal : 0 < s.fsyncedFile2 → s.Limit R ∧ R.wanted = true
  req_lt : s.reqPerformed < 2 ^ 32
  count : 0 < R.M → s.reqPerformed = dataCount outs ∧ s.reqPerformed ≤ R.M
  writes : writesSince R.n outs ≤ s.owed R

theorem inv_init (R : Rules) : Inv R [] ⟨0, 0, false, 0⟩ where
  shape := ⟨[], 0, by simp [series], .nil, by simp, by simp [left, dataCount]⟩
  file_lt := R.n_pos
  inSeries := by simp
  file2_le := Nat.zero_le _
  inFinal := by simp
  req_lt := by simp
  count := by simp [dataCount]
  writes := by simp [writesSince]

theorem inv_final (h : Inv R outs s) (hl : s.Limit R) (hw : R.wanted = true)
    (hlt : s.fsyncedFile2 < R.n) :
    Inv R (outs ++ [some (fsyncOf s.fsyncedFile2)])
      { s with fsyncedFile2 := s.fsyncedFile2 + 1 } := by
  obtain ⟨main, z, rfl, hper, hz, hlen⟩ := h.shape
  have hz0 : z = 0 := by
    by_contra hne
    exact absurd ((hz (by omega)).2 hw) (by omega)
  refine ⟨⟨main, 0, ?_, hper, by simp, ?_⟩, h.file_lt, h.inSeries, hlt, fun _ => ⟨hl, hw⟩, h.req_lt,
    fun hM => ?_, ?_⟩
  · simp [hz0, series_succ]
  · simpa [left] using hlen
  · simpa using h.count hM
  · rw [writesSince_fsync]
    split
    · exact Nat.zero_le _
    · exact h.writes

theorem inv_null (h : Inv R outs s) (hl : s.Limit R) (hw : R.wanted = true → R.n ≤ s.fsyncedFile2) :
    Inv R (outs ++ [none]) s := by
  obtain ⟨main, z, hout, hper, -, hlen⟩ := h.shape
  refine ⟨⟨main, z + 1, ?_, hper, fun _ => ⟨hl, hw⟩, by simpa using hlen⟩, h.file_lt, h.inSeries,
    h.file2_le, h.inFinal, h.req_lt, fun hM => by simpa using h.count hM, ?_⟩
  · rw [hout, List.replicate_succ', List.append_assoc]
  · rw [writesSince_null]
    exact h.writes

/-- Before the limit nothing of the final series has been issued. -/
theorem Inv.shape_of_not_limit (h : Inv R outs s) (hl : ¬ s.Limit R) :
    s.fsyncedFile2 = 0 ∧ ∃ main, outs = main ++ series s.fsyncedFile ∧ Periodic R.n main ∧
      main.length + s.fsyncedFile + s.left R ≤ dataCount outs * (R.n + 1) := by
  obtain ⟨main, z, hout, hper, hz, hlen⟩ := h.shape
  have hf2 : s.fsyncedFile2 = 0 := by
    by_contra hne
    exact hl (h.inFinal (by omega)).1
  have hz0 : z = 0 := by
    by_contra hne
    exact hl (hz (by omega)).1
  exact ⟨hf2, main, by simpa [hf2, hz0] using hout, hper, hlen⟩

theorem inv_series (h : Inv R outs s) (hl : ¬ s.Limit R) (hd : s.Due R)
    (hlt : s.fsyncedFile + 1 < R.n) :
    Inv R (outs ++ [some (fsyncOf s.fsyncedFile)]) { s with fsyncedFile := s.fsyncedFile + 1 } := by
  obtain ⟨hf2, main, hout, hper, hlen⟩ := h.shape_of_not_limit hl
  refine ⟨⟨main, 0, ?_, hper, by simp, ?_⟩, hlt, fun _ => ⟨hd, hl⟩, h.file2_le, h.inFinal, h.req_lt,
    fun hM => by simpa using h.count hM, ?_⟩
  · simp [hout, hf2, series_succ]
  · simp only [left, hd.1, if_true, dataCount_append, dataCount_fsync, add_zero] at hlen ⊢
    omega
  · rw [writesSince_fsync, if_neg (by omega)]
    exact h.writes

theorem inv_seriesEnd (h : Inv R outs s) (hl : ¬ s.Limit R) (hd : s.Due R)
    (hend : s.fsyncedFile + 1 = R.n) :
    Inv R (outs ++ [some (fsyncOf s.fsyncedFile)])
      { s with fsyncedFile := 0, isDirty := false } := by
  obtain ⟨hf2, main, hout, hper, hlen⟩ := h.shape_of_not_limit hl
  refine ⟨⟨main ++ series R.n, 0, ?_, hper.series, by simp, ?_⟩, R.n_pos, by simp, h.file2_le,
    h.inFinal, h.req_lt, fun hM => by simpa using h.count hM, ?_⟩
  · rw [hout, ← hend, series_succ]
    simp [hf2]
  · simp only [left, hd.1, if_true, dataCount_append, dataCount_fsync, List.length_append,
      length_series, Bool.false_eq_true, if_false, add_zero] at hlen ⊢
    omega
  · rw [writesSince_fsync, if_pos (by omega)]
    exact Nat.zero_le _

/-- The 32-bit counter after a data request: at a multiple of `f` again, or one further from the
last one.  Wrapping around lands on a multiple. -/
theorem succ_mod_pow_mod (r f : ℕ) (hr : r < 2 ^ 32) (hf : 0 < f) :
    (r + 1) % 2 ^ 32 % f = 0 ∨ (r + 1) % 2 ^ 32 % f = r % f + 1 := by
  rcases Nat.lt_or_ge (r + 1) (2 ^ 32) with h | h
  · rw [Nat.mod_eq_of_lt h]
    have hlt := Nat.mod_lt r hf
    rw [← Nat.mod_add_mod]
    rcases Nat.lt_or_ge (r % f + 1) f with h' | h'
    · exact Or.inr (Nat.mod_eq_of_lt h')
    · exact Or.inl (by rw [show r % f + 1 = f by omega, Nat.mod_self])
  · exact Or.inl (by rw [show r + 1 = 2 ^ 32 by omega, Nat.mod_self, Nat.zero_mod])

/-- A data request adds at most itself to what is owed, and only a write does. -/
theorem owed_data (hr : s.reqPerformed < 2 ^ 32) (hd : ¬ s.Due R) (w : Bool) :
    s.owed R + (if w then 1 else 0)
      ≤ owed R { s with
          reqPerformed := (s.reqPerformed + 1) % 2 ^ 32
          isDirty := s.isDirty || w } := by
  have hmod := succ_mod_pow_mod s.reqPerformed R.f hr R.f_pos
  have hlt := Nat.mod_lt s.reqPerformed R.f_pos
  have howed : s.owed R = if s.isDirty then s.reqPerformed % R.f else 0 := by
    unfold owed
    by_cases hdirty : s.isDirty = true
    · rw [if_pos hdirty, if_pos hdirty, if_neg fun hz => hd ⟨hdirty, hz⟩]
    · rw [if_neg hdirty, if_neg hdirty]
  rw [howed, owed]
  cases s.isDirty <;> cases w <;>
    simp only [Bool.or_false, Bool.or_true, if_true, if_false, Bool.false_eq_true, le_refl]
  all_goals split_ifs <;> omega

theorem inv_data {r : FileRequest} (h : Inv R outs s) (hl : ¬ s.Limit R) (hd : ¬ s.Due R)
    (hr : r.isData) :
    Inv R (outs ++ [some r])
      { s with
        reqPerformed := (s.reqPerformed + 1) % 2 ^ 32
        isDirty := s.isDirty || r.operation = .write } := by
  obtain ⟨hf2, main, hout, hper, hlen⟩ := h.shape_of_not_limit hl
  have hf : s.fsyncedFile = 0 := by
    by_contra hne
    exact hd (h.inSeries (by omega)).1
  refine ⟨⟨main ++ [some r], 0, ?_, hper.data hr, by simp, ?_⟩, h.file_lt, by simp [hf],
    h.file2_le, by simp [hf2], Nat.mod_lt _ (by norm_num), fun hM => ?_, ?_⟩
  · simp [hout, hf, hf2]
  · have hleft : ∀ t : Sched, t.left R ≤ R.n := fun t => by unfold left; split <;> omega
    have := hleft { s with
      reqPerformed := (s.reqPerformed + 1) % 2 ^ 32
      isDirty := s.isDirty || r.operation = .write }
    rw [dataCount_append, dataCount_data hr, add_mul, List.length_append, List.length_singleton]
    dsimp only
    omega
  · obtain ⟨hcount, hle⟩ := h.count hM
    have hM' := R.M_lt
    have hlt : s.reqPerformed < R.M := not_le.mp fun hge => hl ⟨hM, hge⟩
    dsimp only
    rw [dataCount_append, dataCount_data hr, Nat.mod_eq_of_lt (by omega)]
    omega
  · rw [writesSince_data outs hr]
    refine le_trans (Nat.add_le_add_right h.writes _) ?_
    simpa using owed_data h.req_lt hd (r.operation = .write : Bool)

/-- **Every call keeps the invariant.** -/
theorem inv_step (h : Inv R outs s) (hs : Step R s o s') : Inv R (outs ++ [o]) s' := by
  cases hs with
  | final hl hw hlt => exact inv_final h hl hw hlt
  | null hl hw => exact inv_null h hl hw
  | series hl hd hlt => exact inv_series h hl hd hlt
  | seriesEnd hl hd hend => exact inv_seriesEnd h hl hd hend
  | data hl hd hr => exact inv_data h hl hd hr

end Sched

/-! ## Both generators follow the schedule -/

section Refinement

variable {cfg : Config} {g : Globals} {s s' : GenState} {o : Option FileRequest}

/-- The test modes that write. -/
def writingMode (cfg : Config) : Bool :=
  match cfg.testMode with
  | .write | .rewrite | .rndWrite | .rndRw | .mixed => true
  | .read | .rndRead => false

/-- The schedule of a test: `--file-fsync-end` counts in the writing modes only. -/
def rules (cfg : Config) (g : Globals) (hf : 0 < cfg.fsyncFreq) : Rules where
  n := cfg.numFiles
  f := cfg.fsyncFreq.toNat
  M := g.maxRequests
  wanted := cfg.fsyncEnd && writingMode cfg
  n_pos := cfg.numFiles_pos
  f_pos := by omega
  M_lt := g.maxRequests_lt

/-- The counters of the schedule among those of the generators. -/
def sched (s : GenState) : Sched := ⟨s.fsyncedFile, s.fsyncedFile2, s.isDirty, s.reqPerformed⟩

theorem seqOp_write_iff (hseq : cfg.testMode.sequential) :
    decide (seqOp cfg = .write) = writingMode cfg := by
  unfold seqOp writingMode
  cases hmode : cfg.testMode <;> simp_all [TestMode.sequential]

theorem rndWrites_eq (hseq : ¬ cfg.testMode.sequential) : rndWrites cfg = writingMode cfg := by
  unfold rndWrites writingMode
  cases hmode : cfg.testMode <;> simp_all [TestMode.sequential]

theorem limitReached_iff {hf : 0 < cfg.fsyncFreq} :
    limitReached g s = true ↔ (sched s).Limit (rules cfg g hf) := by
  simp [limitReached, Sched.Limit, sched, rules]

theorem fsyncDue_iff {hf : 0 < cfg.fsyncFreq} :
    fsyncDue cfg s = true ↔ (sched s).Due (rules cfg g hf) := by
  simp [fsyncDue, Sched.Due, sched, rules, hf.ne']

theorem endRequest_step {hf : 0 < cfg.fsyncFreq} (hl : (sched s).Limit (rules cfg g hf)) :
    Sched.Step (rules cfg g hf) (sched s) (endRequest cfg (cfg.fsyncEnd && writingMode cfg) s).1
      (sched (endRequest cfg (cfg.fsyncEnd && writingMode cfg) s).2) := by
  unfold endRequest
  split
  next h =>
    simp only [Bool.and_eq_true, decide_eq_true_eq] at h
    exact .final hl (by rw [rules, Bool.and_eq_true]; exact h.1) h.2
  next h =>
    refine .null hl fun hw => not_lt.mp fun hlt => h ?_
    rw [Bool.and_eq_true, decide_eq_true_eq]
    exact ⟨hw, hlt⟩

theorem fsyncRequest_step {hf : 0 < cfg.fsyncFreq} (hl : ¬ (sched s).Limit (rules cfg g hf))
    (hd : (sched s).Due (rules cfg g hf)) (hfile : s.fsyncedFile < cfg.numFiles) :
    Sched.Step (rules cfg g hf) (sched s) (fsyncRequest cfg s).1
      (sched (fsyncRequest cfg s).2) := by
  unfold fsyncRequest
  split
  next h => exact .seriesEnd hl hd h
  next h => exact .series hl hd (lt_of_le_of_ne hfile h)

theorem sched_seqData (cfg : Config) (g : Globals) (s : GenState) :
    sched (seqData cfg g s).2
      = { sched s with
          reqPerformed := (s.reqPerformed + 1) % 2 ^ 32
          isDirty := s.isDirty || seqOp cfg = .write } := by
  unfold seqData checkOrder advance rewind
  dsimp only
  split_ifs <;> rfl

/-- **The sequential generator follows the schedule.** -/
theorem step_of_fileGetSeqRequest {hf : 0 < cfg.fsyncFreq} (hseq : cfg.testMode.sequential)
    (hdirty : s.isDirty = true → writingMode cfg = true) (hfile : s.fsyncedFile < cfg.numFiles) :
    Sched.Step (rules cfg g hf) (sched s) (fileGetSeqRequest cfg g s).1
      (sched (fileGetSeqRequest cfg g s).2) := by
  unfold fileGetSeqRequest
  rw [seqOp_write_iff hseq]
  split_ifs with hl hd
  · exact endRequest_step (limitReached_iff.mp hl)
  · rw [Bool.and_eq_true] at hd
    exact fsyncRequest_step (fun h => hl (limitReached_iff.mpr h)) (fsyncDue_iff.mp hd.2) hfile
  · have hdue : ¬ (sched s).Due (rules cfg g hf) := fun h => hd (by
      rw [Bool.and_eq_true]
      exact ⟨hdirty h.1, fsyncDue_iff.mpr h⟩)
    rw [sched_seqData]
    refine .data (fun h => hl (limitReached_iff.mpr h)) hdue ?_
    unfold FileRequest.isData seqOp
    split_ifs <;> rfl

/-- **The random generator follows the schedule.** -/
theorem step_of_fileGetRndRequest {hf : 0 < cfg.fsyncFreq} {threadId : ℕ} {draws : List ℤ}
    (hseq : ¬ cfg.testMode.sequential) (hfile : s.fsyncedFile < cfg.numFiles)
    (h : fileGetRndRequest cfg g threadId draws s = .ok (o, s')) :
    Sched.Step (rules cfg g hf) (sched s) o (sched s') := by
  unfold fileGetRndRequest at h
  rw [rndWrites_eq hseq] at h
  split_ifs at h with hl hd
  · obtain ⟨rfl, rfl⟩ := Prod.mk.inj (Except.ok.inj h)
    exact endRequest_step (limitReached_iff.mp hl)
  · obtain ⟨rfl, rfl⟩ := Prod.mk.inj (Except.ok.inj h)
    exact fsyncRequest_step (fun h => hl (limitReached_iff.mpr h)) (fsyncDue_iff.mp hd) hfile
  · obtain ⟨block, -, h⟩ := except_bind_eq_ok.mp h
    obtain ⟨rfl, rfl⟩ := Prod.mk.inj (Except.ok.inj h)
    refine .data (fun h => hl (limitReached_iff.mpr h)) (fun h => hd (fsyncDue_iff.mpr h)) ?_
    rcases rndOp_eq cfg s with hop | hop <;> simp [FileRequest.isData, hop]

/-- Only the writing modes make the sequential generator's state dirty. -/
theorem isDirty_of_fileGetSeqRequest (hseq : cfg.testMode.sequential)
    (hdirty : s.isDirty = true → writingMode cfg = true)
    (h : (fileGetSeqRequest cfg g s).2.isDirty = true) : writingMode cfg = true := by
  have hdata : (seqData cfg g s).2.isDirty = (s.isDirty || seqOp cfg = .write) :=
    congrArg Sched.isDirty (sched_seqData cfg g s)
  unfold fileGetSeqRequest at h
  rw [seqOp_write_iff hseq] at h
  split_ifs at h with hl hd
  · refine hdirty (Eq.trans ?_ h)
    unfold endRequest
    split <;> rfl
  · exact (Bool.and_eq_true _ _ ▸ hd).1
  · rw [hdata, seqOp_write_iff hseq, Bool.or_eq_true] at h
    exact h.elim hdirty id

end Refinement

/-! ## Every run follows the schedule -/

section Runs

variable {cfg : Config} {g : Globals} {s : GenState} {outs : List (Option FileRequest)}

/-- One call of `file_get_request`, as a step of a run. -/
def request (cfg : Config) (g : Globals) (s : GenState) (c : Call) :
    Option (Option FileRequest × GenState) := (fileGetRequest cfg g s c).toOption

/-- In a sequential mode a call does not depend on its caller, and answers unless a sum of it
overflows. -/
theorem request_seq (hseq : cfg.testMode.sequential) (c : Call) :
    request cfg g s c = if seqOverflows cfg g s then none
      else some (fileGetSeqRequest cfg g
        { s with readOps := c.readOps, writeOps := c.writeOps }) := by
  have hov : seqOverflows cfg g { s with readOps := c.readOps, writeOps := c.writeOps }
      = seqOverflows cfg g s := by
    unfold seqOverflows rewind
    dsimp only
    split_ifs <;> rfl
  simp only [request, fileGetRequest, hseq, if_true, hov]
  split_ifs <;> rfl

/-- In a sequential mode a call that answers is one of the sequential generator. -/
theorem request_seq_eq {p : Option FileRequest × GenState} {c : Call}
    (hseq : cfg.testMode.sequential) (h : request cfg g s c = some p) :
    fileGetSeqRequest cfg g { s with readOps := c.readOps, writeOps := c.writeOps } = p := by
  rw [request_seq hseq] at h
  split_ifs at h
  exact Option.some.inj h

/-- In a random mode a call that returns is one of the random generator. -/
theorem request_rnd {s' : GenState} {c : Call} {o : Option FileRequest}
    (hrnd : cfg.testMode.sequential = false) (h : request cfg g s c = some (o, s')) :
    fileGetRndRequest cfg g c.threadId c.draws
      { s with readOps := c.readOps, writeOps := c.writeOps } = .ok (o, s') := by
  simp only [request, fileGetRequest, hrnd, Bool.false_eq_true, if_false] at h
  cases hr : fileGetRndRequest cfg g c.threadId c.draws
    { s with readOps := c.readOps, writeOps := c.writeOps } with
  | error e => rw [hr] at h; cases h
  | ok p => rw [hr] at h; exact congrArg Except.ok (Option.some.inj h)

/-- **Every run of either generator keeps the schedule's invariant.** -/
theorem inv_of_trace (hf : 0 < cfg.fsyncFreq) {perThread : ℕ → ℕ × ℤ}
    (h : Trace (request cfg g) (initVars perThread) outs s) :
    Sched.Inv (rules cfg g hf) outs (sched s) := by
  refine (h.invariant (fun outs s => Sched.Inv (rules cfg g hf) outs (sched s) ∧
    (cfg.testMode.sequential = true → s.isDirty = true → writingMode cfg = true))
    ⟨Sched.inv_init _, by simp [initVars]⟩ ?_).1
  rintro outs s c o s' ⟨hinv, hdirty⟩ hstep
  cases hseq : cfg.testMode.sequential with
  | true =>
    obtain ⟨rfl, rfl⟩ := Prod.ext_iff.mp (request_seq_eq hseq hstep)
    refine ⟨Sched.inv_step hinv ?_, fun _ => isDirty_of_fileGetSeqRequest hseq (hdirty hseq)⟩
    exact step_of_fileGetSeqRequest (s := { s with readOps := c.readOps, writeOps := c.writeOps })
      hseq (hdirty hseq) hinv.file_lt
  | false =>
    refine ⟨Sched.inv_step hinv ?_, fun h => (nomatch h)⟩
    exact step_of_fileGetRndRequest (s := { s with readOps := c.readOps, writeOps := c.writeOps })
      (by simp [hseq]) hinv.file_lt (request_rnd hseq hstep)

/-- **The fsync schedule of a run**, read off its answers: data requests and whole periodic series,
then at most one unfinished series (`j`), or, once all `M` data requests are out, the final series
(`l`) and null requests (`z`). -/
structure FsyncSchedule (cfg : Config) (g : Globals) (outs : List (Option FileRequest)) : Prop where
  answers : ∃ main j l z, outs = main ++ series j ++ series l ++ List.replicate z none ∧
    Periodic cfg.numFiles main ∧ j < cfg.numFiles ∧ l ≤ cfg.numFiles ∧
    (0 < j → l = 0 ∧ z = 0) ∧
    (0 < l ∨ 0 < z → 0 < g.maxRequests ∧ dataCount outs = g.maxRequests) ∧
    (0 < l → cfg.fsyncEnd = true ∧ writingMode cfg = true) ∧
    (0 < z → cfg.fsyncEnd = true → writingMode cfg = true → l = cfg.numFiles) ∧
    (0 < g.maxRequests →
      g.maxRequests * (cfg.numFiles + 1) + cfg.numFiles < outs.length → 0 < z)
  writes : (writesSince cfg.numFiles outs : ℤ) ≤ cfg.fsyncFreq
  data_le : 0 < g.maxRequests → dataCount outs ≤ g.maxRequests
  data_eq : 0 < g.maxRequests → g.maxRequests * (cfg.numFiles + 1) ≤ outs.length →
    dataCount outs = g.maxRequests

/-- **Periodic series run through all files without interruption, at most `f` writes wait for one,
and the limit is followed by the final series.** -/
theorem fsyncSchedule_of_trace (hf : 0 < cfg.fsyncFreq) {perThread : ℕ → ℕ × ℤ}
    (h : Trace (request cfg g) (initVars perThread) outs s) : FsyncSchedule cfg g outs := by
  have hinv := inv_of_trace hf h
  obtain ⟨main, z, hout, hper, hz, hlen⟩ := hinv.shape
  have hlimit : (sched s).Limit (rules cfg g hf) →
      0 < g.maxRequests ∧ dataCount outs = g.maxRequests := fun hl =>
    ⟨hl.1, le_antisymm ((hinv.count hl.1).1 ▸ (hinv.count hl.1).2) ((hinv.count hl.1).1 ▸ hl.2)⟩
  have howed : (sched s).owed (rules cfg g hf) ≤ cfg.fsyncFreq.toNat := by
    have := Nat.mod_lt (sched s).reqPerformed (rules cfg g hf).f_pos
    unfold Sched.owed
    change _ ≤ (rules cfg g hf).f
    split_ifs <;> omega
  have hcount : 0 < g.maxRequests → dataCount outs ≤ g.maxRequests := fun hM =>
    (hinv.count hM).1 ▸ (hinv.count hM).2
  have hwanted : (rules cfg g hf).wanted = true ↔ cfg.fsyncEnd = true ∧ writingMode cfg = true := by
    rw [rules, Bool.and_eq_true]
  have hmain : main.length + s.fsyncedFile ≤ dataCount outs * (cfg.numFiles + 1) :=
    le_trans (Nat.le_add_right _ _) hlen
  have hlength : outs.length = main.length + s.fsyncedFile + s.fsyncedFile2 + z := by
    rw [hout]
    simp only [List.length_append, length_series, List.length_replicate]
    rfl
  refine ⟨⟨main, s.fsyncedFile, s.fsyncedFile2, z, hout, hper, hinv.file_lt, hinv.file2_le,
    fun hj => ?_, fun hlz => ?_, fun hl => hwanted.mp (hinv.inFinal hl).2,
    fun hz' he hw => le_antisymm hinv.file2_le ((hz hz').2 (hwanted.mpr ⟨he, hw⟩)),
    fun hM hlt => ?_⟩, ?_, hcount, fun hM hge => ?_⟩
  · -- inside a periodic series the limit is not reached
    have hl := (hinv.inSeries hj).2
    have hf2 := (hinv.shape_of_not_limit hl).1
    exact ⟨hf2, Nat.eq_zero_of_not_pos fun hz' => hl (hz hz').1⟩
  · exact hlimit (hlz.elim (fun hl => (hinv.inFinal hl).1) fun hz' => (hz hz').1)
  · have hle := hinv.file2_le
    have hmul := Nat.mul_le_mul_right (cfg.numFiles + 1) (hcount hM)
    change s.fsyncedFile2 ≤ cfg.numFiles at hle
    omega
  · have := hinv.writes.trans howed
    change writesSince cfg.numFiles outs ≤ _ at this
    omega
  · by_contra hne
    have hlt := lt_of_le_of_ne (hcount hM) hne
    -- short of the limit there is no final series, so the calls so far are all in `main`
    have hl : ¬ (sched s).Limit (rules cfg g hf) := fun hl => hne (hlimit hl).2
    have hf2 : s.fsyncedFile2 = 0 := (hinv.shape_of_not_limit hl).1
    have hz0 : z = 0 := Nat.eq_zero_of_not_pos fun hz' => hl (hz hz').1
    have hmul := Nat.mul_le_mul_right (cfg.numFiles + 1) (Nat.succ_le_of_lt hlt)
    rw [Nat.succ_mul] at hmul
    omega

/-- One write to two files, then the final series and the null request. -/
theorem fsyncSchedule_twoFiles :
    FsyncSchedule (twoFiles 0 1) ⟨1, false, 1, by decide⟩
      [some ⟨0, 0, 16, .write⟩, some (fsyncOf 0), some (fsyncOf 1), none] := by
  have call : Call := ⟨0, [], 0, 0⟩
  have h : Trace (request (twoFiles 0 1) ⟨1, false, 1, by decide⟩)
      (initVars fun _ => (0, 0)) [] _ := .nil
  have h1 := h.snoc (i := call) (o := some ⟨0, 0, 16, .write⟩) rfl
  have h2 := h1.snoc (i := call) (o := some (fsyncOf 0)) rfl
  have h3 := h2.snoc (i := call) (o := some (fsyncOf 1)) rfl
  have h4 := h3.snoc (i := call) (o := none) rfl
  exact fsyncSchedule_of_trace (by decide) h4

end Runs

end Sysbench.Fileio
