import Sysbench.Fileio.Workers

/-!
# Fileio/RwRatio — the ratio of reads to writes in the combined random mode

`file_get_rnd_request` chooses between a read and a write by `read_ops` and `write_ops`, which count
the requests completed, not those handed out: what it sees is stale by the requests the other
workers have not completed.  A worker has at most one of these, so the choice is off by at most
`n - 1` requests of either kind, and the requests handed out keep to the ratio up to that
(`issued_ratio`).  The quotient it compares is a double: rounding may take a quotient below the
ratio up to it, and then one write too many is handed out (`rounding_passes_ratio`).
-/

namespace Sysbench.Fileio

variable {cfg : Config} {g : Globals} {maxTime : ℕ} {s s' : Pool} {hist : List (Pool × Turn)}
  {op : FileOp}

/-! ## The counters, as the generator reads them -/

/-- How many operations of a kind have been performed. -/
def completed (op : FileOp) (disk : List FileRequest) : ℕ := disk.countP (·.operation = op)

/-- A call that finds `read_ops` and `write_ops` as the completions have left them, as `int`. -/
def Call.counting (c : Call) (s : Pool) : Call :=
  { c with
    readOps := toI32 (completed .read s.disk)
    writeOps := toI32 (completed .write s.disk) }

/-- The counters, and the sums with 1 that are formed of them, are exact. -/
def CountersFit (s : Pool) : Prop :=
  completed .read s.disk + 1 < 2 ^ 31 ∧ completed .write s.disk + 1 < 2 ^ 31

/-- Counters below `2 ^ 31` are exact. -/
theorem Call.counting_ops (c : Call) (hreads : completed .read s.disk + 1 < 2 ^ 31)
    (hwrites : completed .write s.disk + 1 < 2 ^ 31) :
    (c.counting s).readOps = completed .read s.disk ∧
      (c.counting s).writeOps = completed .write s.disk := by
  unfold Call.counting
  exact ⟨toI32_of_lt (by omega) (by omega), toI32_of_lt (by omega) (by omega)⟩

/-- One turn of one worker, the counters being those of the run itself. -/
def countingTurn (cfg : Config) (g : Globals) (maxTime : ℕ) (s : Pool) : Turn → Option Pool
  | .take c => s.take cfg g (c.counting s)
  | .execute t o => s.execute cfg maxTime t o

/-- The turn hands out a request of this kind. -/
def issues (cfg : Config) (g : Globals) (op : FileOp) : Pool × Turn → Bool
  | (s, .take c) =>
    match request cfg g s.gen (c.counting s) with
    | some (some r, _) => r.operation = op
    | _ => false
  | (_, .execute _ _) => false

/-- How many requests of a kind a run has handed out. -/
def issued (cfg : Config) (g : Globals) (op : FileOp) (hist : List (Pool × Turn)) : ℕ :=
  hist.countP (issues cfg g op)

/-! ## The choice -/

/-- The comparison of the source, `(read_ops + 1) / (write_ops + 1) < file_rw_ratio`, where the sums
are exact. -/
theorem rndOp_eq_ite {st : GenState} {reads writes : ℕ} (hmode : cfg.testMode = .rndRw)
    (hr : st.readOps = reads) (hw : st.writeOps = writes) (hreads : reads + 1 < 2 ^ 31)
    (hwrites : writes + 1 < 2 ^ 31) :
    rndOp cfg st
      = if roundDouble ((reads + 1 : ℕ) / (writes + 1 : ℕ)) < cfg.rwRatio then .read
        else .write := by
  have hx : toI32 (st.readOps + 1) = (reads + 1 : ℕ) := by
    rw [hr]
    exact_mod_cast toI32_of_lt (x := (reads + 1 : ℕ)) (by omega) (by omega)
  have hy : toI32 (st.writeOps + 1) = (writes + 1 : ℕ) := by
    rw [hw]
    exact_mod_cast toI32_of_lt (x := (writes + 1 : ℕ)) (by omega) (by omega)
  have hne : ((writes + 1 : ℕ) : ℤ) ≠ 0 := by omega
  rw [rndOp, if_pos hmode, hx, hy, quotientBelow, if_neg hne, Int.cast_natCast, Int.cast_natCast]
  simp only [decide_eq_true_eq]
  split_ifs <;> simp_all

/-- **The ratio asks for a read** only where there are too few of them. -/
theorem lt_of_roundDouble {reads writes : ℕ}
    (h : roundDouble ((reads + 1 : ℕ) / (writes + 1 : ℕ)) < cfg.rwRatio) :
    (reads + 1 : ℚ) < cfg.rwRatio * (writes + 1) := by
  have hpos : (0 : ℚ) < (writes + 1 : ℕ) := by positivity
  have hlt := lt_of_roundDouble_lt cfg.rwRatio_double cfg.rwRatio_nonneg h
  rw [div_lt_iff₀ hpos] at hlt
  exact_mod_cast hlt

/-- **It asks for a write** where there are enough reads, or too few by less than the rounding. -/
theorem le_of_roundDouble {reads writes : ℕ}
    (h : cfg.rwRatio ≤ roundDouble ((reads + 1 : ℕ) / (writes + 1 : ℕ))) :
    cfg.rwRatio * (writes + 1) ≤ (reads + 1 : ℚ) * (1 + 1 / 2 ^ 53) := by
  have hpos : (0 : ℚ) < (writes + 1 : ℕ) := by positivity
  have hle := h.trans (roundDouble_le_mul (div_pos (by positivity) hpos))
  rw [div_mul_eq_mul_div, le_div_iff₀ hpos] at hle
  exact_mod_cast hle

/-- **What the combined mode hands out**: an fsync, or the operation the counters ask for. -/
theorem operation_of_request {s s' : GenState} {c : Call} {r : FileRequest}
    (hmode : cfg.testMode = .rndRw) (h : request cfg g s c = some (some r, s')) :
    r.operation = .fsync ∨
      r.operation = rndOp cfg { s with readOps := c.readOps, writeOps := c.writeOps } := by
  have hok := request_rnd (by rw [hmode]; rfl) h
  unfold fileGetRndRequest at hok
  split_ifs at hok
  · have hend := congrArg Prod.fst (Except.ok.inj hok)
    unfold endRequest at hend
    split_ifs at hend
    exact Or.inl (congrArg FileRequest.operation (Option.some.inj hend)).symm
  · have hdue := congrArg Prod.fst (Except.ok.inj hok)
    exact Or.inl (congrArg FileRequest.operation (Option.some.inj hdue)).symm
  · obtain ⟨block, -, hok⟩ := except_bind_eq_ok.mp hok
    have hdata := congrArg Prod.fst (Except.ok.inj hok)
    exact Or.inr (congrArg FileRequest.operation (Option.some.inj hdata)).symm

/-! ## What the workers have not completed -/

/-- The worker holds a request of this kind. -/
def Worker.holds (op : FileOp) : Worker → ℕ
  | .holding r => if r.operation = op then 1 else 0
  | _ => 0

/-- The worker has a read or a write it has not completed; what a worker was executing when it
failed it never completes. -/
def Worker.owes : Worker → ℕ
  | .holding r => r.isData.toNat
  | .failed => 1
  | _ => 0

theorem Worker.owes_le_one (w : Worker) : w.owes ≤ 1 := by
  cases w with
  | holding r => exact Bool.toNat_le _
  | failed => exact le_rfl
  | ready | finished | timedOut => exact Nat.zero_le 1

theorem Worker.owes_holding (r : FileRequest) :
    (Worker.holding r).owes = (Worker.holding r).holds .read + (Worker.holding r).holds .write := by
  obtain ⟨i, p, n, o⟩ := r
  cases o <;> rfl

/-- What a worker holds together with the others. -/
def Pool.sum (g : Globals) (weight : Worker → ℕ) (s : Pool) : ℕ :=
  ∑ t ∈ Finset.range g.numThreads, weight (s.worker t)

/-- One worker moves. -/
theorem Pool.sum_put {t : ℕ} (weight : Worker → ℕ) (s : Pool) (w : Worker)
    (ht : t < g.numThreads) :
    (s.put t w).sum g weight + weight (s.worker t) = s.sum g weight + weight w := by
  have h := sum_add_eq_of_ne (f := fun u => weight ((s.put t w).worker u))
    (g := fun u => weight (s.worker u)) (Finset.mem_range.mpr ht)
    fun u hu => by rw [Pool.put_worker_of_ne hu]
  rwa [Pool.put_worker_self] at h

/-- The others of a worker that is ready. -/
theorem Pool.sum_owes_lt {t : ℕ} (ht : t < g.numThreads) (hready : s.worker t = .ready) :
    s.sum g Worker.owes < g.numThreads := by
  calc s.sum g Worker.owes
      < ∑ t ∈ Finset.range g.numThreads, 1 := by
        refine Finset.sum_lt_sum (fun u _ => Worker.owes_le_one _) ⟨t, Finset.mem_range.mpr ht, ?_⟩
        rw [hready]
        exact Nat.zero_lt_one
    _ = g.numThreads := by simp

/-- What an execution counts: the request, once, when it is a read or a write. -/
theorem completed_performed {r : FileRequest} (hop : op = .read ∨ op = .write) :
    completed op (performed cfg r) = (Worker.holding r).holds op := by
  obtain ⟨i, p, n, o⟩ := r
  rcases hop with rfl | rfl <;> cases o <;> unfold performed <;> dsimp only <;>
    (try split_ifs) <;> rfl

theorem completed_append (op : FileOp) (disk disk' : List FileRequest) :
    completed op (disk ++ disk') = completed op disk + completed op disk' := List.countP_append

/-! ## The accounts -/

/-- **What has been handed out is completed or owed**, and what is completed or held has been handed
out. -/
structure Accounted (cfg : Config) (g : Globals) (hist : List (Pool × Turn)) (s : Pool) :
    Prop where
  idle : ∀ t, g.numThreads ≤ t → s.worker t = .ready
  covered : ∀ op, op = .read ∨ op = .write →
    completed op s.disk + s.sum g (Worker.holds op) ≤ issued cfg g op hist
  owed : issued cfg g .read hist + issued cfg g .write hist
    ≤ completed .read s.disk + completed .write s.disk + s.sum g Worker.owes

theorem issued_concat (e : Pool × Turn) :
    issued cfg g op (hist ++ [e]) = issued cfg g op hist + (issues cfg g op e).toNat :=
  countP_concat ..

theorem accounted_start (perThread : ℕ → ℕ × ℤ) : Accounted cfg g [] (startPool perThread) := by
  refine ⟨fun _ _ => rfl, fun op _ => ?_, Nat.zero_le _⟩
  simp [completed, startPool, Pool.sum, Worker.holds]

/-- One worker moves: it is enough to look at what that worker holds and owes before and after. -/
theorem Accounted.put {t : ℕ} {w : Worker} {s₁ : Pool} {e : Pool × Turn}
    (hA : Accounted cfg g hist s) (ht : t < g.numThreads) (hworker : s₁.worker = s.worker)
    (hcov : ∀ op, op = .read ∨ op = .write → completed op s₁.disk + w.holds op
      ≤ completed op s.disk + (s.worker t).holds op + (issues cfg g op e).toNat)
    (howed : completed .read s.disk + completed .write s.disk + (s.worker t).owes
        + (issues cfg g .read e).toNat + (issues cfg g .write e).toNat
      ≤ completed .read s₁.disk + completed .write s₁.disk + w.owes) :
    Accounted cfg g (hist ++ [e]) (s₁.put t w) := by
  have hsum : ∀ weight : Worker → ℕ,
      (s₁.put t w).sum g weight + weight (s.worker t) = s.sum g weight + weight w := by
    intro weight
    have h := Pool.sum_put weight s₁ w ht
    rw [hworker] at h
    rw [h, Pool.sum, Pool.sum, hworker]
  refine ⟨fun u hu => ?_, fun op hop => ?_, ?_⟩
  · rw [Pool.put_worker_of_ne (by omega), hworker]
    exact hA.idle u hu
  · have hold := hA.covered op hop
    have hnew := hcov op hop
    have hs := hsum (Worker.holds op)
    rw [issued_concat, Pool.put_disk]
    omega
  · have hold := hA.owed
    have hs := hsum Worker.owes
    rw [issued_concat, issued_concat, Pool.put_disk]
    omega

/-- **An execution completes the request it is of**, or leaves it owed for good. -/
theorem accounted_execute {t : ℕ} {o : Outcome} (hA : Accounted cfg g hist s)
    (h : s.execute cfg maxTime t o = some s') :
    Accounted cfg g (hist ++ [(s, Turn.execute t o)]) s' := by
  obtain ⟨r, hr, hcase⟩ := Pool.execute_cases h
  have ht : t < g.numThreads := by
    by_contra hge
    rw [hA.idle t (not_lt.mp hge)] at hr
    cases hr
  obtain ⟨-, rfl⟩ | ⟨ho, -, rfl⟩ := hcase
  · refine hA.put ht rfl (fun op _ => ?_) ?_
    · exact Nat.add_le_add_left (Nat.zero_le _) _
    · exact Nat.add_le_add_left (Worker.owes_le_one _) _
  · refine hA.put ht rfl (fun op hop => ?_) ?_
    · have hzero : o.next.holds op = 0 := by cases o <;> rfl
      rw [hzero, completed_append, completed_performed hop, hr]
      exact le_rfl
    · rw [completed_append, completed_append, completed_performed (Or.inl rfl),
        completed_performed (Or.inr rfl), hr, Worker.owes_holding]
      simp only [issues, Bool.toNat_false]
      omega

/-- **What is handed out is held**, and owed when it moves data. -/
theorem accounted_take {c : Call} (hA : Accounted cfg g hist s)
    (h : s.take cfg g (c.counting s) = some s') :
    Accounted cfg g (hist ++ [(s, Turn.take c)]) s' := by
  obtain ⟨hlt, hready, o, gen, hreq, rfl⟩ := Pool.take_cases h
  have hissues : ∀ op, (issues cfg g op (s, .take c)).toNat = (Worker.given o).holds op := by
    intro op
    simp only [issues, hreq]
    cases o with
    | none => rfl
    | some r => simp [Worker.given, Worker.holds, Bool.toNat, Bool.cond_decide]
  refine hA.put hlt rfl (fun op _ => ?_) ?_ <;> rw [hready]
  · rw [hissues]
    exact le_rfl
  · rw [hissues, hissues]
    cases o with
    | none => exact le_rfl
    | some r =>
      have howes : Worker.ready.owes = 0 := rfl
      rw [Worker.given, Worker.owes_holding r, howes, add_zero, ← add_assoc]

/-! ## The ratio -/

/-- **The requests handed out keep to the ratio**, up to one request of each other worker. -/
structure Paced (cfg : Config) (g : Globals) (hist : List (Pool × Turn)) : Prop where
  reads_le : (issued cfg g .read hist : ℚ)
    ≤ cfg.rwRatio * (issued cfg g .write hist + 1) + (g.numThreads - 1)
  writes_le : cfg.rwRatio * issued cfg g .write hist
    ≤ (issued cfg g .read hist + 1) * (1 + 1 / 2 ^ 53) + cfg.rwRatio * (g.numThreads - 1)

theorem paced_start (hn : 0 < g.numThreads) : Paced cfg g [] := by
  have hothers : (0 : ℚ) ≤ g.numThreads - 1 := by
    rw [sub_nonneg]
    exact_mod_cast hn
  have hr := cfg.rwRatio_nonneg
  constructor <;> simp only [issued, List.countP_nil, Nat.cast_zero, mul_zero] <;> positivity

/-- A turn that hands out neither a read nor a write. -/
theorem Paced.concat_of_issues {e : Pool × Turn} (hP : Paced cfg g hist)
    (hread : issues cfg g .read e = false) (hwrite : issues cfg g .write e = false) :
    Paced cfg g (hist ++ [e]) := by
  obtain ⟨hreads, hwrites⟩ := hP
  constructor <;> rw [issued_concat, issued_concat, hread, hwrite]
  · exact hreads
  · exact hwrites

/-- Another read, the counters lagging behind by fewer requests than there are workers. -/
theorem Paced.concat_read {e : Pool × Turn} {reads writes : ℕ} (hP : Paced cfg g hist)
    (hread : issues cfg g .read e = true) (hwrite : issues cfg g .write e = false)
    (hchoice : (reads + 1 : ℚ) < cfg.rwRatio * (writes + 1))
    (hwrites : writes ≤ issued cfg g .write hist)
    (hlag : issued cfg g .read hist + 1 ≤ reads + g.numThreads) :
    Paced cfg g (hist ++ [e]) := by
  have hr := cfg.rwRatio_nonneg
  have hw : (writes : ℚ) ≤ issued cfg g .write hist := by exact_mod_cast hwrites
  have hl : (issued cfg g .read hist + 1 : ℚ) ≤ reads + g.numThreads := by exact_mod_cast hlag
  constructor <;> rw [issued_concat, issued_concat, hread, hwrite] <;> push_cast
  · calc (issued cfg g .read hist + 1 : ℚ)
        ≤ (reads + 1) + (g.numThreads - 1) := by linarith
      _ ≤ cfg.rwRatio * (writes + 1) + (g.numThreads - 1) := by linarith
      _ ≤ cfg.rwRatio * (issued cfg g .write hist + 0 + 1) + (g.numThreads - 1) := by
        rw [add_zero]
        gcongr
  · have hold := hP.writes_le
    simp only [Bool.toNat_false, Bool.toNat_true, Nat.cast_zero, Nat.cast_one]
    linarith

/-- Another write. -/
theorem Paced.concat_write {e : Pool × Turn} {reads writes : ℕ} (hP : Paced cfg g hist)
    (hread : issues cfg g .read e = false) (hwrite : issues cfg g .write e = true)
    (hchoice : cfg.rwRatio * (writes + 1) ≤ (reads + 1 : ℚ) * (1 + 1 / 2 ^ 53))
    (hreads : reads ≤ issued cfg g .read hist)
    (hlag : issued cfg g .write hist + 1 ≤ writes + g.numThreads) :
    Paced cfg g (hist ++ [e]) := by
  have hr := cfg.rwRatio_nonneg
  have hd : (reads : ℚ) ≤ issued cfg g .read hist := by exact_mod_cast hreads
  have hl : (issued cfg g .write hist + 1 : ℚ) ≤ writes + g.numThreads := by exact_mod_cast hlag
  constructor <;> rw [issued_concat, issued_concat, hread, hwrite] <;>
    simp only [Bool.toNat_false, Bool.toNat_true, Nat.cast_add, Nat.cast_zero, Nat.cast_one]
  · have hold := hP.reads_le
    linarith
  · calc cfg.rwRatio * (issued cfg g .write hist + 1 : ℚ)
        ≤ cfg.rwRatio * ((writes + 1) + (g.numThreads - 1)) :=
          mul_le_mul_of_nonneg_left (by linarith) hr
      _ = cfg.rwRatio * (writes + 1) + cfg.rwRatio * (g.numThreads - 1) := mul_add ..
      _ ≤ (issued cfg g .read hist + 0 + 1) * (1 + 1 / 2 ^ 53)
          + cfg.rwRatio * (g.numThreads - 1) := by linarith

/-- **What is handed out, and what the counters say then.** -/
theorem choice_of_request {c : Call} {r : FileRequest} {gen : GenState}
    (hmode : cfg.testMode = .rndRw) (hreads : completed .read s.disk + 1 < 2 ^ 31)
    (hwrites : completed .write s.disk + 1 < 2 ^ 31)
    (h : request cfg g s.gen (c.counting s) = some (some r, gen)) :
    r.operation = .fsync ∨
      r.operation = .read ∧
        (completed .read s.disk + 1 : ℚ) < cfg.rwRatio * (completed .write s.disk + 1) ∨
      r.operation = .write ∧ cfg.rwRatio * (completed .write s.disk + 1)
        ≤ (completed .read s.disk + 1 : ℚ) * (1 + 1 / 2 ^ 53) := by
  obtain ⟨hreadOps, hwriteOps⟩ := Call.counting_ops c hreads hwrites
  refine (operation_of_request hmode h).imp_right fun hop => ?_
  rw [hreadOps, hwriteOps, rndOp_eq_ite hmode rfl rfl hreads hwrites] at hop
  split_ifs at hop with hchoice
  · exact Or.inl ⟨hop, lt_of_roundDouble hchoice⟩
  · exact Or.inr ⟨hop, le_of_roundDouble (not_lt.mp hchoice)⟩

/-- **A request handed out is the one the counters ask for**, and they lag behind by what the other
workers owe. -/
theorem paced_take {c : Call} (hmode : cfg.testMode = .rndRw) (hA : Accounted cfg g hist s)
    (hP : Paced cfg g hist) (hreads : completed .read s.disk + 1 < 2 ^ 31)
    (hwrites : completed .write s.disk + 1 < 2 ^ 31)
    (h : s.take cfg g (c.counting s) = some s') : Paced cfg g (hist ++ [(s, Turn.take c)]) := by
  obtain ⟨hlt, hready, o, gen, hreq, -⟩ := Pool.take_cases h
  have hissues : ∀ op, issues cfg g op (s, .take c) = o.any (·.operation = op) := by
    intro op
    simp only [issues, hreq]
    cases o <;> rfl
  cases o with
  | none => exact hP.concat_of_issues (hissues _) (hissues _)
  | some r =>
    have hothers := Pool.sum_owes_lt hlt hready
    have howed := hA.owed
    have hcovRead := hA.covered .read (Or.inl rfl)
    have hcovWrite := hA.covered .write (Or.inr rfl)
    obtain hop | ⟨hop, hchoice⟩ | ⟨hop, hchoice⟩ := choice_of_request hmode hreads hwrites hreq
    · exact hP.concat_of_issues (by simp [hissues, hop]) (by simp [hissues, hop])
    · refine hP.concat_read (by simp [hissues, hop]) (by simp [hissues, hop]) hchoice ?_ ?_
      · omega
      · omega
    · refine hP.concat_write (by simp [hissues, hop]) (by simp [hissues, hop]) hchoice ?_ ?_
      · omega
      · omega

/-- **The reads and writes handed out keep to the ratio**, the writes up to the rounding of the
quotient: in the combined random mode, for any number of workers and every interleaving of taking
and completing requests, failed ones included. -/
theorem issued_ratio (perThread : ℕ → ℕ × ℤ) (hmode : cfg.testMode = .rndRw)
    (hn : 0 < g.numThreads) (hrun : Run (countingTurn cfg g maxTime) (startPool perThread) hist s)
    (hfits : ∀ e ∈ hist, CountersFit e.1) :
    (issued cfg g .read hist : ℚ)
        ≤ cfg.rwRatio * (issued cfg g .write hist + 1) + (g.numThreads - 1) ∧
      cfg.rwRatio * issued cfg g .write hist
        ≤ (issued cfg g .read hist + 1) * (1 + 1 / 2 ^ 53)
          + cfg.rwRatio * (g.numThreads - 1) := by
  have hP := (hrun.induction (fun hist s => (∀ e ∈ hist, CountersFit e.1) →
    Accounted cfg g hist s ∧ Paced cfg g hist) ?_ ?_ hfits).2
  · exact ⟨hP.reads_le, hP.writes_le⟩
  · exact fun _ => ⟨accounted_start perThread, paced_start hn⟩
  · intro hist s i s' hI hs hall
    rw [List.forall_mem_append, List.forall_mem_singleton] at hall
    obtain ⟨hA, hP⟩ := hI hall.1
    cases i with
    | take c => exact ⟨accounted_take hA hs, paced_take hmode hA hP hall.2.1 hall.2.2 hs⟩
    | execute t o => exact ⟨accounted_execute hA hs, hP.concat_of_issues rfl rfl⟩

/-- Two files, read and written at random in the default ratio of 3 to 2. -/
def rndrwConfig : Config := { twoFiles 0 0 with testMode := .rndRw }

/-- Two workers: both are given reads on the counters of the start, the second fails, and the first
goes on with a write and a read. -/
def twoTakers : List Turn :=
  [.take ⟨0, [5], 0, 0⟩, .take ⟨1, [20], 0, 0⟩, .execute 0 .again, .take ⟨0, [40], 0, 0⟩,
    .execute 1 .failed, .execute 0 .again, .take ⟨0, [70], 0, 0⟩]

theorem issued_ratio_twoTakers :
    ∃ hist s, Run (countingTurn rndrwConfig (unlimited 2) 0) (startPool fun _ => (0, 0)) hist s ∧
      issued rndrwConfig (unlimited 2) .read hist = 3 ∧
      issued rndrwConfig (unlimited 2) .write hist = 1 ∧
      (issued rndrwConfig (unlimited 2) .read hist : ℚ)
        ≤ 3 / 2 * (issued rndrwConfig (unlimited 2) .write hist + 1) + 1 := by
  have h : (Run.play (countingTurn rndrwConfig (unlimited 2) 0) (startPool fun _ => (0, 0))
      twoTakers).map (fun p => (issued rndrwConfig (unlimited 2) .read p.1,
        issued rndrwConfig (unlimited 2) .write p.1,
        p.1.all fun e => completed .read e.1.disk ≤ 1 && completed .write e.1.disk ≤ 1))
      = some (3, 1, true) := by
    decide +kernel
  obtain ⟨⟨hist, s⟩, hplay, heq⟩ := Option.map_eq_some_iff.mp h
  obtain ⟨hread, heq⟩ := Prod.mk.inj heq
  obtain ⟨hwrite, hall⟩ := Prod.mk.inj heq
  have hrun := Run.of_play hplay
  have hfits : ∀ e ∈ hist, CountersFit e.1 := by
    intro e he
    have hsmall := List.all_eq_true.mp hall e he
    rw [Bool.and_eq_true, decide_eq_true_iff, decide_eq_true_iff] at hsmall
    exact ⟨by omega, by omega⟩
  have hbound := (issued_ratio _ rfl (by decide) hrun hfits).1
  have hothers : (((unlimited 2).numThreads : ℚ) - 1) = 1 := by norm_num [unlimited]
  rw [hothers] at hbound
  exact ⟨hist, s, hrun, hread, hwrite, hbound⟩

/-! ## A quotient that rounds up to the ratio

One worker and a ratio just below 1, a whole number of `2 ^ 24`-ths.  The choices are those of exact
arithmetic, a write for each read but one in `2 ^ 24`, until the quotient is below the ratio by less
than the rounding. -/

theorem roundedRatio_nonneg : (0 : ℚ) ≤ 16777215 / 16777216 := by norm_num

theorem roundedRatio_double : IsDouble (16777215 / 16777216) := by
  unfold IsDouble
  decide +kernel

/-- A ratio of `1 - 2 ^ -24`, which is a `float`. -/
def roundedConfig : Config :=
  { twoFiles 0 0 with
    testMode := .rndRw
    rwRatio := 16777215 / 16777216
    rwRatio_double := roundedRatio_double
    rwRatio_nonneg := roundedRatio_nonneg }

/-- One worker with nothing in its hands, after so many reads and writes. -/
structure Alternating (hist : List (Pool × Turn)) (s : Pool) (reads writes : ℕ) : Prop where
  run : Run (countingTurn roundedConfig (unlimited 1) 0) (startPool fun _ => (0, 0)) hist s
  ready : s.worker 0 = .ready
  completed_read : completed .read s.disk = reads
  completed_write : completed .write s.disk = writes
  issued_read : issued roundedConfig (unlimited 1) .read hist = reads
  issued_write : issued roundedConfig (unlimited 1) .write hist = writes
  le : ∀ e ∈ hist, completed .read e.1.disk ≤ reads ∧ completed .write e.1.disk ≤ writes

/-- The block of the first offset, as a request. -/
def firstBlock (op : FileOp) : FileRequest := ⟨0, 0, 16, op⟩

theorem request_roundedConfig (st : GenState) (reads writes : ℤ) :
    ∃ gen, request roundedConfig (unlimited 1) st ⟨0, [0], reads, writes⟩
      = some (some (firstBlock (rndOp roundedConfig
          { st with readOps := reads, writeOps := writes })), gen) := by
  have hblock : rndBlock roundedConfig 0 = .ok (0, 0) := by
    simp [rndBlock, roundedConfig, twoFiles, toU64, toU32, toI32, toI64]
  have hfreq : roundedConfig.fsyncFreq = 0 := rfl
  have hseq : roundedConfig.testMode.sequential = false := rfl
  simp [request, fileGetRequest, hseq, fileGetRndRequest, limitReached, unlimited, fsyncDue, hfreq,
    rndData, rndRetry, hblock, bind, Except.bind, pure, Except.pure, Except.toOption, firstBlock]
  rfl

/-- Reads and writes of the block can be executed. -/
theorem executable_firstBlock (hop : op = .read ∨ op = .write) :
    executable roundedConfig (firstBlock op) = true ∧
      performed roundedConfig (firstBlock op) = [firstBlock op] := by
  rcases hop with rfl | rfl <;> exact ⟨by decide, rfl⟩

/-- The first worker has been handed the block. -/
def Pool.handed (s : Pool) (gen : GenState) (op : FileOp) : Pool :=
  { s with gen := gen }.put 0 (.holding (firstBlock op))

/-- The first worker has completed the block. -/
def Pool.finished (s : Pool) (op : FileOp) : Pool :=
  { s with disk := s.disk ++ [firstBlock op] }.put 0 .ready

/-- The turn that takes the request. -/
theorem Alternating.take {reads writes : ℕ} (h : Alternating hist s reads writes)
    (hreads : reads + 1 < 2 ^ 31) (hwrites : writes + 1 < 2 ^ 31)
    (hop : op = if roundDouble ((reads + 1 : ℕ) / (writes + 1 : ℕ)) < roundedConfig.rwRatio
      then FileOp.read else .write) :
    (∃ gen, countingTurn roundedConfig (unlimited 1) 0 s (.take ⟨0, [0], 0, 0⟩)
      = some (s.handed gen op)) ∧
      ∀ o, issues roundedConfig (unlimited 1) o (s, .take ⟨0, [0], 0, 0⟩) = decide (op = o) := by
  obtain ⟨gen, hreq⟩ := request_roundedConfig s.gen (toI32 (completed .read s.disk))
    (toI32 (completed .write s.disk))
  rw [h.completed_read, h.completed_write, toI32_of_lt (by omega) (by omega),
    toI32_of_lt (by omega) (by omega), rndOp_eq_ite rfl rfl rfl hreads hwrites, ← hop] at hreq
  have hcount : Call.counting ⟨0, [0], 0, 0⟩ s = ⟨0, [0], reads, writes⟩ := by
    rw [Call.counting, h.completed_read, h.completed_write, toI32_of_lt (by omega) (by omega),
      toI32_of_lt (by omega) (by omega)]
  constructor
  · refine ⟨gen, ?_⟩
    rw [countingTurn, hcount, Pool.take, if_pos ⟨Nat.one_pos, h.ready⟩, hreq]
    rfl
  · intro o
    simp only [issues, hcount, hreq, firstBlock]

/-- The turn that completes it. -/
theorem Pool.execute_handed {gen : GenState} (hop : op = .read ∨ op = .write) :
    countingTurn roundedConfig (unlimited 1) 0 (s.handed gen op) (.execute 0 .again)
      = some ((s.handed gen op).finished op) := by
  obtain ⟨hexec, hperf⟩ := executable_firstBlock hop
  have hworker : (s.handed gen op).worker 0 = .holding (firstBlock op) :=
    Pool.put_worker_self _ _ _
  rw [countingTurn, Pool.execute, hworker, Pool.finished, ← hperf]
  dsimp only
  rw [if_neg (by simp), if_pos ⟨by decide, hexec, by simp⟩]
  rfl

/-- **The worker takes a request and completes it.** -/
theorem Alternating.next {reads writes : ℕ} (h : Alternating hist s reads writes)
    (hreads : reads + 1 < 2 ^ 31) (hwrites : writes + 1 < 2 ^ 31)
    (hop : op = if roundDouble ((reads + 1 : ℕ) / (writes + 1 : ℕ)) < roundedConfig.rwRatio
      then FileOp.read else .write) :
    ∃ hist' s', Alternating hist' s' (reads + if op = .read then 1 else 0)
      (writes + if op = .write then 1 else 0) := by
  have hdata : op = .read ∨ op = .write := by
    rw [hop]
    split_ifs
    · exact Or.inl rfl
    · exact Or.inr rfl
  obtain ⟨⟨gen, htake⟩, hissues⟩ := h.take hreads hwrites hop
  have hdisk : (s.handed gen op).disk = s.disk := Pool.put_disk _ _ _
  refine ⟨_, _, (h.run.snoc htake).snoc (Pool.execute_handed hdata), Pool.put_worker_self _ _ _,
    ?_, ?_, ?_, ?_, ?_⟩
  · rw [Pool.finished, Pool.put_disk, completed_append, hdisk, h.completed_read]
    simp [completed, firstBlock, List.countP_singleton]
  · rw [Pool.finished, Pool.put_disk, completed_append, hdisk, h.completed_write]
    simp [completed, firstBlock, List.countP_singleton]
  · rw [issued_concat, issued_concat, h.issued_read, hissues]
    simp [issues, Bool.toNat, Bool.cond_decide]
  · rw [issued_concat, issued_concat, h.issued_write, hissues]
    simp [issues, Bool.toNat, Bool.cond_decide]
  · intro e he
    rcases List.mem_append.mp he with he | he
    · rcases List.mem_append.mp he with he | he
      · have hle := h.le e he
        omega
      · obtain rfl := List.mem_singleton.mp he
        exact ⟨by rw [h.completed_read]; omega, by rw [h.completed_write]; omega⟩
    · obtain rfl := List.mem_singleton.mp he
      dsimp only
      rw [hdisk, h.completed_read, h.completed_write]
      omega

/-- There are too few reads by more than the rounding. -/
theorem roundDouble_lt_ratio {a x : ℕ} (ha : 0 < a) (hax : a < x)
    (h : a * 2 ^ 54 + x < (2 ^ 24 - 1) * 2 ^ 30 * x) :
    roundDouble (a / x) < roundedConfig.rwRatio := by
  have hx : (0 : ℚ) < x := by exact_mod_cast ha.trans hax
  have hone : (a : ℚ) / x < 2 ^ (0 : ℤ) := by
    rw [zpow_zero, div_lt_one hx]
    exact_mod_cast hax
  have hulp := ulp_le_of_lt (div_pos (by exact_mod_cast ha) hx) hone
  have hgap : (a : ℚ) / x + 1 / 2 ^ 54 < 16777215 / 16777216 := by
    rw [div_add_div _ _ hx.ne' (by norm_num), div_lt_div_iff₀ (by positivity) (by norm_num)]
    norm_num at h ⊢
    exact_mod_cast (by linarith : (a * 18014398509481984 + x) * 16777216
      < 16777215 * (x * 18014398509481984))
  calc roundDouble (a / x) ≤ a / x + ulp (a / x) / 2 := roundDouble_le_add _
    _ ≤ a / x + 1 / 2 ^ 54 := by
      norm_num at hulp ⊢
      linarith
    _ < roundedConfig.rwRatio := hgap

/-- There are enough reads. -/
theorem ratio_le_roundDouble {a x : ℕ} (hx : 0 < x) (h : (2 ^ 24 - 1) * x ≤ 2 ^ 24 * a) :
    roundedConfig.rwRatio ≤ roundDouble (a / x) := by
  refine le_roundDouble roundedRatio_double roundedRatio_nonneg ?_
  change (16777215 / 16777216 : ℚ) ≤ a / x
  rw [div_le_div_iff₀ (by norm_num) (by exact_mod_cast hx)]
  norm_num at h
  exact_mod_cast (by linarith : 16777215 * x ≤ a * 16777216)

theorem Alternating.next_read {reads writes : ℕ} (h : Alternating hist s reads writes)
    (hwrites : writes + 1 < 2 ^ 31) (hlt : reads < writes)
    (hgap : (reads + 1) * 2 ^ 54 + (writes + 1) < (2 ^ 24 - 1) * 2 ^ 30 * (writes + 1)) :
    ∃ hist' s', Alternating hist' s' (reads + 1) writes := by
  have hop : FileOp.read = if roundDouble ((reads + 1 : ℕ) / (writes + 1 : ℕ))
      < roundedConfig.rwRatio then FileOp.read else .write := by
    rw [if_pos (roundDouble_lt_ratio (by omega) (by omega) hgap)]
  exact h.next (by omega) hwrites hop

theorem Alternating.next_write {reads writes : ℕ} (h : Alternating hist s reads writes)
    (hreads : reads + 1 < 2 ^ 31) (hwrites : writes + 1 < 2 ^ 31)
    (hle : roundedConfig.rwRatio ≤ roundDouble ((reads + 1 : ℕ) / (writes + 1 : ℕ))) :
    ∃ hist' s', Alternating hist' s' reads (writes + 1) := by
  have hop : FileOp.write = if roundDouble ((reads + 1 : ℕ) / (writes + 1 : ℕ))
      < roundedConfig.rwRatio then FileOp.read else .write := by
    rw [if_neg (not_lt.mpr hle)]
  exact h.next hreads hwrites hop

/-- **The choices of exact arithmetic**, as long as the rounding makes no difference. -/
theorem exists_alternating (k : ℕ) (hk : k < 65 * 2 ^ 24 - 2) :
    ∃ hist s, Alternating hist s (k - (k + 1) / 2 ^ 24) k := by
  induction k with
  | zero => exact ⟨[], _, .nil, rfl, rfl, rfl, rfl, rfl, by simp⟩
  | succ k ih =>
    obtain ⟨hist, s, h⟩ := ih (by omega)
    obtain ⟨hist, s, h⟩ := h.next_write (by omega) (by omega)
      (ratio_le_roundDouble (Nat.succ_pos k) (by omega))
    by_cases hskip : (k + 1 + 1) / 2 ^ 24 = (k + 1) / 2 ^ 24
    · obtain ⟨hist, s, h⟩ := h.next_read (by omega) (by omega) (by omega)
      exact ⟨hist, s, by rwa [hskip, Nat.sub_add_comm (by omega)]⟩
    · have hnext : (k + 1 + 1) / 2 ^ 24 = (k + 1) / 2 ^ 24 + 1 := by omega
      exact ⟨hist, s, by rwa [hnext, Nat.add_sub_add_right]⟩

/-- **A write too many**: 1090518974 / 1090519039 is below the ratio, and rounds up to it.  With one
worker the writes handed out are then more than the ratio allows for the reads. -/
theorem rounding_passes_ratio :
    ∃ hist s, Run (countingTurn roundedConfig (unlimited 1) 0) (startPool fun _ => (0, 0)) hist s ∧
      (∀ e ∈ hist, CountersFit e.1) ∧
      issued roundedConfig (unlimited 1) .read hist = 1090518973 ∧
      issued roundedConfig (unlimited 1) .write hist = 1090519039 ∧
      ¬ roundedConfig.rwRatio * issued roundedConfig (unlimited 1) .write hist
        ≤ issued roundedConfig (unlimited 1) .read hist + 1
          + roundedConfig.rwRatio * ((unlimited 1).numThreads - 1) := by
  obtain ⟨hist, s, h⟩ := exists_alternating 1090519037 (by norm_num)
  obtain ⟨hist, s, h⟩ := h.next_write (by norm_num) (by norm_num)
    (ratio_le_roundDouble (by norm_num) (by norm_num))
  have hround :
      roundDouble ((1090518973 + 1 : ℕ) / (1090519038 + 1 : ℕ)) = 16777215 / 16777216 := by
    decide +kernel
  obtain ⟨hist, s, h⟩ := h.next_write (by norm_num) (by norm_num) hround.ge
  refine ⟨hist, s, h.run, fun e he => ?_, h.issued_read, h.issued_write, ?_⟩
  · have hle := h.le e he
    unfold CountersFit
    omega
  · rw [h.issued_read, h.issued_write]
    norm_num [roundedConfig, unlimited]

end Sysbench.Fileio
