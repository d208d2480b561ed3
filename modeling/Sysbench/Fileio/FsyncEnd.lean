import Sysbench.Fileio.Workers

/-!
# Fileio/FsyncEnd — what `--file-fsync-end` promises about several workers

Past the request limit the generator hands out one fsync for each file, after all the writes.  The
requests are handed out in this order under `exec_mutex`, but executed outside of it: a worker may
execute the final fsync of a file while another one still holds a write of that file, and that
write is then never followed by an fsync (`fsyncEnd_overtaken`).  When no fsync past the limit
overtakes a write, and no worker leaves early on the time limit, every write is covered
(`writesSynced_of_inOrder`): a file that is unsynced, or about to be, still has its final fsync to
come or in flight.
-/

namespace Sysbench.Fileio

variable {cfg : Config} {g : Globals} {maxTime f : ℕ} {disk : List FileRequest}

/-- **Every write is followed by an fsync of its file.** -/
def WritesSynced (disk : List FileRequest) : Prop :=
  ∀ pre w post, disk = pre ++ w :: post → w.operation = .write →
    ∃ q ∈ post, q.operation = .fsync ∧ q.fileId = w.fileId

/-- How an operation leaves file `f`: a write unsyncs it, an fsync syncs it. -/
def sync (f : ℕ) (d : Bool) (r : FileRequest) : Bool :=
  if r.fileId = f then
    if r.operation = .write then true else if r.operation = .fsync then false else d
  else d

/-- File `f` has a write that no fsync followed. -/
def unsynced (f : ℕ) (disk : List FileRequest) : Bool := disk.foldl (sync f) false

@[simp] theorem unsynced_nil : unsynced f [] = false := rfl

theorem unsynced_append (ops : List FileRequest) :
    unsynced f (disk ++ ops) = ops.foldl (sync f) (unsynced f disk) := List.foldl_append

/-- A written file stays unsynced until an fsync. -/
theorem foldl_sync_true {post : List FileRequest}
    (h : ∀ q ∈ post, ¬ (q.operation = .fsync ∧ q.fileId = f)) :
    post.foldl (sync f) true = true := by
  induction post with
  | nil => rfl
  | cons q post ih =>
    rw [List.forall_mem_cons] at h
    have hq : sync f true q = true := by
      unfold sync
      split_ifs with hf hw hs
      · rfl
      · exact absurd ⟨hs, hf⟩ h.1
      · rfl
      · rfl
    rw [List.foldl_cons, hq]
    exact ih h.2

theorem writesSynced_of_forall_unsynced (h : ∀ f, unsynced f disk = false) :
    WritesSynced disk := by
  rintro pre w post rfl hw
  by_contra hnone
  push Not at hnone
  have hpost : post.foldl (sync w.fileId) true = true :=
    foldl_sync_true fun q hq ⟨hop, hf⟩ => hnone q hq hop hf
  have hsync := h w.fileId
  have hwrite : sync w.fileId (unsynced w.fileId pre) w = true := by simp [sync, hw]
  rw [unsynced_append, List.foldl_cons, hwrite, hpost] at hsync
  cases hsync

/-! ## What a call hands out -/

/-- **The final series in one call** of either generator: before the limit it has not started, past
it the call is part of it. -/
inductive Handout (cfg : Config) (g : Globals) (s s' : GenState) : Option FileRequest → Prop
  | before {r : FileRequest} : limitReached g s = false → s'.fsyncedFile2 = s.fsyncedFile2 →
      Handout cfg g s s' (some r)
  | final : limitReached g s = true → limitReached g s' = true → s.fsyncedFile2 < cfg.numFiles →
      s'.fsyncedFile2 = s.fsyncedFile2 + 1 → Handout cfg g s s' (some (fsyncOf s.fsyncedFile2))
  | null : limitReached g s = true → limitReached g s' = true →
      ((cfg.fsyncEnd && writingMode cfg) = true → cfg.numFiles ≤ s.fsyncedFile2) →
      s'.fsyncedFile2 = s.fsyncedFile2 → Handout cfg g s s' none

theorem handout_endRequest {s : GenState} (hl : limitReached g s = true) :
    Handout cfg g s (endRequest cfg (cfg.fsyncEnd && writingMode cfg) s).2
      (endRequest cfg (cfg.fsyncEnd && writingMode cfg) s).1 := by
  unfold endRequest
  split
  next h =>
    rw [Bool.and_eq_true, decide_eq_true_eq] at h
    exact .final hl hl h.2 rfl
  next h =>
    refine .null hl hl (fun hw => not_lt.mp fun hlt => h ?_) rfl
    rw [hw, decide_eq_true hlt]
    rfl

theorem handout_fsyncRequest {s : GenState} (hl : limitReached g s = false) :
    Handout cfg g s (fsyncRequest cfg s).2 (fsyncRequest cfg s).1 := by
  refine .before hl ?_
  unfold fsyncRequest
  dsimp only
  split <;> rfl

theorem handout_seq {s : GenState} (hseq : cfg.testMode.sequential) :
    Handout cfg g s (fileGetSeqRequest cfg g s).2 (fileGetSeqRequest cfg g s).1 := by
  unfold fileGetSeqRequest
  rw [seqOp_write_iff hseq]
  split_ifs with hl hd
  · exact handout_endRequest hl
  · exact handout_fsyncRequest (Bool.eq_false_iff.mpr hl)
  · exact .before (Bool.eq_false_iff.mpr hl)
      (congrArg Sched.fsyncedFile2 (sched_seqData cfg g s))

theorem handout_rnd {s s' : GenState} {o : Option FileRequest} {threadId : ℕ} {draws : List ℤ}
    (hseq : ¬ cfg.testMode.sequential)
    (h : fileGetRndRequest cfg g threadId draws s = .ok (o, s')) : Handout cfg g s s' o := by
  unfold fileGetRndRequest at h
  rw [rndWrites_eq hseq] at h
  split_ifs at h with hl hd
  · obtain ⟨rfl, rfl⟩ := Prod.ext_iff.mp (Except.ok.inj h)
    exact handout_endRequest hl
  · obtain ⟨rfl, rfl⟩ := Prod.ext_iff.mp (Except.ok.inj h)
    exact handout_fsyncRequest (Bool.eq_false_iff.mpr hl)
  · obtain ⟨block, -, h⟩ := except_bind_eq_ok.mp h
    obtain ⟨rfl, rfl⟩ := Prod.mk.inj (Except.ok.inj h)
    exact .before (Bool.eq_false_iff.mpr hl) rfl

theorem handout_request {s s' : GenState} {c : Call} {o : Option FileRequest}
    (h : request cfg g s c = some (o, s')) : Handout cfg g s s' o := by
  have hops : Handout cfg g { s with readOps := c.readOps, writeOps := c.writeOps } s' o := by
    cases hseq : cfg.testMode.sequential with
    | true =>
      obtain ⟨rfl, rfl⟩ := Prod.ext_iff.mp (request_seq_eq hseq h)
      exact handout_seq hseq
    | false => exact handout_rnd (by simp [hseq]) (request_rnd hseq h)
  cases hops with
  | before hl h2 => exact .before hl h2
  | final hl hl' hlt h2 => exact .final hl hl' hlt h2
  | null hl hl' hle h2 => exact .null hl hl' hle h2

/-! ## Files in debt -/

/-- File `f` has been written and not synced, or a worker is about to write it. -/
def InDebt (s : Pool) (f : ℕ) : Prop :=
  unsynced f s.disk = true ∨
    ∃ t w, s.worker t = .holding w ∧ w.operation = .write ∧ w.fileId = f

/-- The final fsync of file `f` has not been handed out, or some fsync of it is in flight. -/
def FsyncAhead (s : Pool) (f : ℕ) : Prop :=
  s.gen.fsyncedFile2 ≤ f ∨
    ∃ t q, s.worker t = .holding q ∧ q.operation = .fsync ∧ q.fileId = f

/-- **A file in debt still has an fsync ahead**, as long as no worker has failed. -/
structure Covered (cfg : Config) (g : Globals) (s : Pool) : Prop where
  early : limitReached g s.gen = false → s.gen.fsyncedFile2 = 0
  file2_le : s.gen.fsyncedFile2 ≤ cfg.numFiles
  finished : ∀ t, s.worker t = .finished → s.gen.fsyncedFile2 = cfg.numFiles
  threads : ∀ t, s.worker t ≠ .ready → t < g.numThreads
  unsynced_lt : ∀ f, unsynced f s.disk = true → f < cfg.numFiles ∧ 0 < g.numThreads
  fsyncAll : cfg.fsyncAll = true → ∀ f, unsynced f s.disk = false
  noTimeUp : ∀ t, s.worker t ≠ .timedOut
  ahead : (∀ t, s.worker t ≠ .failed) → ∀ f, InDebt s f → FsyncAhead s f

/-- **Nothing overtakes a write**: no worker leaves on the time limit, and an fsync past the request
limit is executed only when no worker holds a write of its file. -/
def InOrder (g : Globals) (e : Pool × Turn) : Prop :=
  ∀ t o, e.2 = .execute t o → o ≠ .timeUp ∧
    ∀ q, e.1.worker t = .holding q → q.operation = .fsync → limitReached g e.1.gen = true →
      ∀ u w, e.1.worker u = .holding w → w.operation = .write → w.fileId ≠ q.fileId

theorem covered_start (perThread : ℕ → ℕ × ℤ) : Covered cfg g (startPool perThread) where
  early _ := rfl
  file2_le := Nat.zero_le _
  finished t h := by cases h
  threads t h := absurd rfl h
  unsynced_lt f h := by cases h
  fsyncAll _ _ := rfl
  noTimeUp t h := by cases h
  ahead _ _ _ := Or.inl (Nat.zero_le _)

/-- A worker that holds a request is not the one taking one. -/
theorem holding_after_take {s s' : Pool} {c : Call} {t : ℕ} {r : FileRequest}
    (h : s.take cfg g c = some s') (ht : s.worker t = .holding r) : s'.worker t = .holding r := by
  obtain ⟨-, hready, o, gen, -, rfl⟩ := Pool.take_cases h
  have hne : t ≠ c.threadId := by
    rintro rfl
    rw [hready] at ht
    cases ht
  rw [Pool.put_worker_of_ne hne]
  exact ht

/-- **Taking a request** keeps the debts covered: the fsync handed out is in flight. -/
theorem ahead_take {s s' : Pool} {c : Call} (hI : Covered cfg g s)
    (h : s.take cfg g c = some s') (hok : ∀ t, s.worker t ≠ .failed) (hdebt : InDebt s' f) :
    FsyncAhead s' f := by
  obtain ⟨-, -, o, gen, hreq, hs'⟩ := Pool.take_cases h
  have hgen : s'.gen = gen := by rw [hs']; rfl
  have hdisk : s'.disk = s.disk := by rw [hs']; rfl
  have hkeep : FsyncAhead s f → gen.fsyncedFile2 = s.gen.fsyncedFile2 → FsyncAhead s' f := by
    rintro (hle | ⟨t, q, ht, hq⟩) h2
    · exact Or.inl (by rw [hgen, h2]; exact hle)
    · exact Or.inr ⟨t, q, holding_after_take h ht, hq⟩
  have hold : (∀ w, o = some w → w.operation ≠ .write) → InDebt s f := by
    intro hnw
    rcases hdebt with hun | ⟨t, w, ht, hw, hf⟩
    · exact Or.inl (by rw [← hdisk]; exact hun)
    · rcases holding_of_take h ht with ⟨-, ht⟩ | ⟨-, ht⟩
      · exact Or.inr ⟨t, w, ht, hw, hf⟩
      · have ho : o = some w := by simpa [hgen] using hreq.symm.trans ht
        exact absurd hw (hnw w ho)
  cases handout_request hreq with
  | before hl h2 => exact Or.inl (by rw [hgen, h2, hI.early hl]; exact Nat.zero_le f)
  | null hl hl' hle h2 => exact hkeep (hI.ahead hok f (hold (by simp))) h2
  | final hl hl' hlt h2 =>
    rcases hI.ahead hok f (hold (by simp [fsyncOf])) with hle | ⟨t, q, ht, hq⟩
    · -- the fsync handed out is the one of `f`, or one before it
      rcases hle.eq_or_lt with rfl | hlt'
      · refine Or.inr ⟨c.threadId, fsyncOf s.gen.fsyncedFile2, ?_, rfl, rfl⟩
        rw [hs', Pool.put_worker_self]
        rfl
      · exact Or.inl (by rw [hgen, h2]; exact hlt')
    · exact Or.inr ⟨t, q, holding_after_take h ht, hq⟩

theorem covered_take (hend : (cfg.fsyncEnd && writingMode cfg) = true) {s s' : Pool} {c : Call}
    (hI : Covered cfg g s) (h : s.take cfg g c = some s') : Covered cfg g s' := by
  have hahead := fun f => ahead_take (f := f) hI h
  obtain ⟨hlt, hready, o, gen, hreq, rfl⟩ := Pool.take_cases h
  have hout := handout_request hreq
  have hold : ∀ {t : ℕ} {w : Worker}, s.worker t = w → w ≠ .ready →
      (({ s with gen := gen } : Pool).put c.threadId (Worker.given o)).worker t = w := by
    rintro t w rfl hne
    rw [Pool.put_worker_of_ne (by rintro rfl; exact hne hready)]
  refine ⟨?_, ?_, fun t ht => ?_, fun t ht => ?_, hI.unsynced_lt, hI.fsyncAll, fun t ht => ?_,
    fun hok f => hahead f fun t ht => hok t (hold ht (by simp))⟩
  · intro hl
    cases hout with
    | before hl' h2 => exact h2.trans (hI.early hl')
    | final _ hl' => exact absurd (hl'.symm.trans hl) (by simp)
    | null _ hl' => exact absurd (hl'.symm.trans hl) (by simp)
  · change gen.fsyncedFile2 ≤ _
    cases hout with
    | before _ h2 => rw [h2]; exact hI.file2_le
    | final _ _ hlt h2 => rw [h2]; exact hlt
    | null _ _ _ h2 => rw [h2]; exact hI.file2_le
  · -- a worker is finished by a null request, and a finished one stays so
    change gen.fsyncedFile2 = _
    rcases eq_or_ne t c.threadId with rfl | hne
    · rw [Pool.put_worker_self] at ht
      cases hout with
      | before => cases ht
      | final => cases ht
      | null _ _ hle h2 => rw [h2]; exact le_antisymm hI.file2_le (hle hend)
    · rw [Pool.put_worker_of_ne hne] at ht
      have hall := hI.finished t ht
      cases hout with
      | before _ h2 => exact h2.trans hall
      | final _ _ hlt _ => omega
      | null _ _ _ h2 => exact h2.trans hall
  · rcases eq_or_ne t c.threadId with rfl | hne
    · exact hlt
    · rw [Pool.put_worker_of_ne hne] at ht
      exact hI.threads t ht
  · rcases eq_or_ne t c.threadId with rfl | hne
    · rw [Pool.put_worker_self] at ht
      cases o <;> cases ht
    · rw [Pool.put_worker_of_ne hne] at ht
      exact hI.noTimeUp t ht

/-! ## Executing a request -/

/-- What executing a request does to file `f`. -/
theorem foldl_performed (cfg : Config) (r : FileRequest) (f : ℕ) (d : Bool) :
    (performed cfg r).foldl (sync f) d
      = if r.fileId = f then
          match r.operation with
          | .write => !cfg.fsyncAll
          | .fsync => cfg.fsyncAll && d
          | _ => d
        else d := by
  unfold performed
  cases hop : r.operation <;> cases hall : cfg.fsyncAll <;> by_cases hf : r.fileId = f <;>
    simp [sync, hop, hf, fsyncOf]

/-- Only a write of the file unsyncs it. -/
theorem unsynced_performed {r : FileRequest} (h : unsynced f (disk ++ performed cfg r) = true) :
    unsynced f disk = true ∨ r.operation = .write ∧ r.fileId = f := by
  rw [unsynced_append, foldl_performed] at h
  split at h
  next hf =>
    split at h
    next hop => exact Or.inr ⟨hop, hf⟩
    next hop => exact Or.inl (Bool.and_eq_true _ _ ▸ h).2
    next => exact Or.inl h
  next => exact Or.inl h

/-- **An fsync leaves its file synced.** -/
theorem unsynced_fsync {s : Pool} {r : FileRequest} (hI : Covered cfg g s)
    (hop : r.operation = .fsync) : unsynced r.fileId (s.disk ++ performed cfg r) = false := by
  rw [unsynced_append, foldl_performed, if_pos rfl, hop]
  cases hall : cfg.fsyncAll with
  | false => rfl
  | true => exact hI.fsyncAll hall r.fileId

/-- **Executing a request** keeps the debts covered: an fsync pays the debt of its file, and no
write of that file is in flight behind it. -/
theorem ahead_execute {s : Pool} {t : ℕ} {r : FileRequest} (hI : Covered cfg g s)
    (hr : s.worker t = .holding r)
    (hord : r.operation = .fsync → limitReached g s.gen = true →
      ∀ u w, s.worker u = .holding w → w.operation = .write → w.fileId ≠ r.fileId)
    (hok : ∀ u, s.worker u ≠ .failed)
    (hdebt : InDebt ({ s with disk := s.disk ++ performed cfg r }.put t .ready) f) :
    FsyncAhead ({ s with disk := s.disk ++ performed cfg r }.put t .ready) f := by
  have hheld : ∀ {u : ℕ} {w : FileRequest},
      ({ s with disk := s.disk ++ performed cfg r }.put t .ready).worker u = .holding w →
        s.worker u = .holding w := by
    intro u w hu
    rcases eq_or_ne u t with rfl | hne
    · rw [Pool.put_worker_self] at hu
      cases hu
    · rwa [Pool.put_worker_of_ne hne] at hu
  have hold : InDebt s f := by
    rcases hdebt with hun | ⟨u, w, hu, hw, hf⟩
    · rcases unsynced_performed hun with hun | ⟨hop, hf⟩
      · exact Or.inl hun
      · exact Or.inr ⟨t, r, hr, hop, hf⟩
    · exact Or.inr ⟨u, w, hheld hu, hw, hf⟩
  rcases hI.ahead hok f hold with hle | ⟨u, q, hu, hop, hf⟩
  · exact Or.inl hle
  · rcases eq_or_ne u t with rfl | hne
    · -- the fsync ahead is the one being executed
      obtain rfl : r = q := Worker.holding.inj (hr.symm.trans hu)
      subst hf
      cases hl : limitReached g s.gen with
      | false => exact Or.inl (by rw [Pool.put_gen, hI.early hl]; exact Nat.zero_le _)
      | true =>
        rcases hdebt with hun | ⟨v, w, hv, hw, hf⟩
        · rw [Pool.put_disk, unsynced_fsync hI hop] at hun
          cases hun
        · exact absurd hf (hord hop hl v w (hheld hv) hw)
    · exact Or.inr ⟨u, q, by rw [Pool.put_worker_of_ne hne]; exact hu, hop, hf⟩

theorem covered_failed {s : Pool} {t : ℕ} (hI : Covered cfg g s) (ht : t < g.numThreads) :
    Covered cfg g (s.put t .failed) := by
  have hold : ∀ {u : ℕ} {w : Worker}, (s.put t .failed).worker u = w → w ≠ .failed →
      s.worker u = w := by
    rintro u w hu hne
    rcases eq_or_ne u t with rfl | hut
    · rw [Pool.put_worker_self] at hu
      exact absurd hu.symm hne
    · rwa [Pool.put_worker_of_ne hut] at hu
  refine ⟨hI.early, hI.file2_le, fun u hu => hI.finished u (hold hu (by simp)),
    fun u hu => ?_, hI.unsynced_lt, hI.fsyncAll,
    fun u hu => hI.noTimeUp u (hold hu (by simp)), fun hok => ?_⟩
  · rcases eq_or_ne u t with rfl | hut
    · exact ht
    · rw [Pool.put_worker_of_ne hut] at hu
      exact hI.threads u hu
  · exact absurd (Pool.put_worker_self s t .failed) (hok t)

theorem covered_execute {s s' : Pool} {t : ℕ} {o : Outcome} (hI : Covered cfg g s)
    (hord : InOrder g (s, .execute t o)) (h : s.execute cfg maxTime t o = some s') :
    Covered cfg g s' := by
  obtain ⟨hup, hord⟩ := hord t o rfl
  obtain ⟨r, hr, hcase⟩ := Pool.execute_cases h
  have ht : t < g.numThreads := hI.threads t (by rw [hr]; simp)
  obtain ⟨rfl, rfl⟩ | ⟨hne, hex, rfl⟩ := hcase
  · exact covered_failed hI ht
  have hnext : o.next = .ready := by
    cases o with
    | again => rfl
    | timeUp => exact absurd rfl hup
    | failed => exact absurd rfl hne
  rw [hnext]
  have hold : ∀ {u : ℕ} {w : Worker}, w ≠ .ready →
      ({ s with disk := s.disk ++ performed cfg r }.put t .ready).worker u = w →
        s.worker u = w := by
    rintro u w hw hu
    rcases eq_or_ne u t with rfl | hut
    · rw [Pool.put_worker_self] at hu
      exact absurd hu.symm hw
    · rwa [Pool.put_worker_of_ne hut] at hu
  refine ⟨hI.early, hI.file2_le, fun u hu => hI.finished u (hold (by simp) hu),
    fun u hu => ?_, fun f hun => ?_, fun hall f => ?_,
    fun u hu => hI.noTimeUp u (hold (by simp) hu), fun hok f => ?_⟩
  · rcases eq_or_ne u t with rfl | hut
    · exact ht
    · rw [Pool.put_worker_of_ne hut] at hu
      exact hI.threads u hu
  · rcases unsynced_performed hun with hun | ⟨-, rfl⟩
    · exact hI.unsynced_lt f hun
    · refine ⟨?_, (Nat.zero_le t).trans_lt ht⟩
      simp only [executable, Bool.and_eq_true, decide_eq_true_eq] at hex
      exact hex.1.2
  · rw [Pool.put_disk, unsynced_append, foldl_performed, hall, hI.fsyncAll hall f]
    split
    · split <;> rfl
    · rfl
  · refine ahead_execute hI hr (hord r hr) fun u hu => hok u ?_
    rw [Pool.put_worker_of_ne (by rintro rfl; rw [hr] at hu; cases hu)]
    exact hu

/-- **With `--file-fsync-end`, a run in which nothing overtakes a write leaves every write
synced.** -/
theorem writesSynced_of_inOrder (cfg : Config) (g : Globals) (maxTime : ℕ)
    (perThread : ℕ → ℕ × ℤ) {hist : List (Pool × Turn)} {s : Pool} (hend : cfg.fsyncEnd = true)
    (hmode : writingMode cfg = true)
    (h : Run (turn cfg g maxTime) (startPool perThread) hist s)
    (hord : ∀ e ∈ hist, InOrder g e)
    (hstop : ∀ t < g.numThreads, s.worker t = .finished ∨ s.worker t = .timedOut) :
    WritesSynced s.disk := by
  have hwanted : (cfg.fsyncEnd && writingMode cfg) = true := by rw [hend, hmode]; rfl
  have hI : Covered cfg g s := by
    refine h.invariant (Covered cfg g) (InOrder g) (covered_start perThread) ?_ hord
    intro s i s' hI hok hs
    cases i with
    | take c => exact covered_take hwanted hI hs
    | execute t o => exact covered_execute hI hok hs
  have hfin : ∀ t < g.numThreads, s.worker t = .finished := fun t ht =>
    (hstop t ht).resolve_right (hI.noTimeUp t)
  have hthread : ∀ t, s.worker t = .ready ∨ s.worker t = .finished := fun t =>
    or_iff_not_imp_left.mpr fun hne => hfin t (hI.threads t hne)
  refine writesSynced_of_forall_unsynced fun f => Bool.eq_false_iff.mpr fun hun => ?_
  obtain ⟨hlt, hpos⟩ := hI.unsynced_lt f hun
  have hok : ∀ t, s.worker t ≠ .failed := by
    intro t ht
    rcases hthread t with hw | hw <;> rw [hw] at ht <;> cases ht
  -- all final fsyncs are handed out, and no request is in flight
  rcases hI.ahead hok f (Or.inl hun) with hle | ⟨t, q, ht, -⟩
  · rw [hI.finished 0 (hfin 0 hpos)] at hle
    omega
  · rcases hthread t with hw | hw <;> rw [hw] at ht <;> cases ht

/-- Where one worker at most holds a request, it overtakes none. -/
theorem inOrder_of_alone {e : Pool × Turn} (htime : ∀ t, e.2 ≠ .execute t .timeUp)
    (halone : ∀ t q u w, e.1.worker t = .holding q → e.1.worker u = .holding w → u = t) :
    InOrder g e := by
  intro t o heq
  refine ⟨?_, fun q hq hop _ u w hu hw => ?_⟩
  · rintro rfl
    exact htime t heq
  · obtain rfl := halone t q u w hq hu
    obtain rfl : q = w := Worker.holding.inj (hq.symm.trans hu)
    rw [hop] at hw
    cases hw

/-- Only the workers of the test ever hold a request. -/
theorem lt_of_holding {perThread : ℕ → ℕ × ℤ} {hist : List (Pool × Turn)} {s : Pool}
    (h : Run (turn cfg g maxTime) (startPool perThread) hist s) :
    ∀ e ∈ hist, ∀ t r, e.1.worker t = .holding r → t < g.numThreads := by
  refine (Run.induction (fun hist s => (∀ t r, s.worker t = .holding r → t < g.numThreads) ∧
    ∀ e ∈ hist, ∀ t r, e.1.worker t = .holding r → t < g.numThreads)
    ⟨fun t r ht => (by cases ht), by simp⟩ ?_ h).2
  intro hist s i s' ⟨hs, hall⟩ hmove
  refine ⟨fun t r ht => ?_, List.forall_mem_append.mpr ⟨hall, List.forall_mem_singleton.mpr hs⟩⟩
  cases i with
  | take c =>
    rcases holding_of_take hmove ht with ⟨-, ht⟩ | ⟨rfl, -⟩
    · exact hs t r ht
    · exact (Pool.take_cases hmove).1
  | execute u o => exact hs t r (holding_of_execute hmove ht).2

/-- **A single worker executes its requests in order.** -/
theorem inOrder_of_single {perThread : ℕ → ℕ × ℤ} {hist : List (Pool × Turn)} {s : Pool}
    (hn : g.numThreads = 1) (h : Run (turn cfg g maxTime) (startPool perThread) hist s)
    (htime : ∀ e ∈ hist, ∀ t, e.2 ≠ .execute t .timeUp) : ∀ e ∈ hist, InOrder g e := by
  refine fun e he => inOrder_of_alone (htime e he) fun t q u w hq hw => ?_
  have ht := lt_of_holding h e he t q hq
  have hu := lt_of_holding h e he u w hw
  omega

/-- A run of `M` requests without validation. -/
def limited (M numThreads : ℕ) (hM : M < 2 ^ 32) : Globals := ⟨M, false, numThreads, hM⟩

/-- A block of sixteen bytes is a total size. -/
theorem oneBlock_size : 0 < 16 ∧ 16 < 2 ^ 63 := by norm_num

/-- One file of one block, rewritten sequentially, one request in all. -/
def oneWrite (numThreads : ℕ) : Pool → Turn → Option Pool :=
  turn (seqConfig .rewrite 16 16 0 oneBlock_size (Nat.succ_pos 15))
    (limited 1 numThreads (by decide)) 0

/-- Two workers: the first one has written the block when the second is handed the fsync, and leaves
while the second one holds it. -/
theorem writesSynced_oneWrite :
    ∃ hist s, Run (oneWrite 2) (startPool fun _ => (0, 0)) hist s ∧
      (∀ t < 2, s.worker t = .finished) ∧
      s.disk = [⟨0, 0, 16, .write⟩, fsyncOf 0] ∧ WritesSynced s.disk := by
  have h : (Run.play (oneWrite 2) (startPool fun _ => (0, 0))
      [.take ⟨0, [], 0, 0⟩, .execute 0 .again, .take ⟨1, [], 0, 0⟩, .take ⟨0, [], 0, 0⟩,
        .execute 1 .again, .take ⟨1, [], 0, 0⟩]).map (fun p =>
          (p.2.disk, p.2.worker 0, p.2.worker 1,
            p.1.map fun e => (e.1.worker 0, e.1.worker 1, e.2)))
      = some ([⟨0, 0, 16, .write⟩, fsyncOf 0], .finished, .finished,
        [(.ready, .ready, .take ⟨0, [], 0, 0⟩),
          (.holding ⟨0, 0, 16, .write⟩, .ready, .execute 0 .again),
          (.ready, .ready, .take ⟨1, [], 0, 0⟩),
          (.ready, .holding (fsyncOf 0), .take ⟨0, [], 0, 0⟩),
          (.finished, .holding (fsyncOf 0), .execute 1 .again),
          (.finished, .ready, .take ⟨1, [], 0, 0⟩)]) := rfl
  obtain ⟨⟨hist, s⟩, hplay, hs⟩ := Option.map_eq_some_iff.mp h
  simp only [Prod.mk.injEq] at hs
  obtain ⟨hdisk, h0, h1, hviews⟩ := hs
  have hrun := Run.of_play hplay
  have hstop : ∀ t < 2, s.worker t = .finished := fun t ht => by
    interval_cases t
    · exact h0
    · exact h1
  refine ⟨hist, s, hrun, hstop, hdisk, writesSynced_of_inOrder _ (limited 1 2 (by decide)) 0 _ rfl
    rfl hrun (fun e he => ?_) fun t ht => Or.inl (hstop t ht)⟩
  have hview :=
    List.mem_map_of_mem (f := fun e : Pool × Turn => (e.1.worker 0, e.1.worker 1, e.2)) he
  rw [hviews] at hview
  simp only [List.mem_cons, List.not_mem_nil, or_false, Prod.mk.injEq] at hview
  refine inOrder_of_alone (fun t heq => by simp [heq] at hview) fun t q u w hq hw => ?_
  have ht : t < 2 := lt_of_holding hrun e he t q hq
  have hu : u < 2 := lt_of_holding hrun e he u w hw
  interval_cases t <;> interval_cases u <;> simp [hq, hw] at hview ⊢

/-- **The final fsync overtakes the write**: the second worker is handed the fsync while the first
one holds the write, and executes it first. -/
theorem fsyncEnd_overtaken :
    ∃ cfg, parseArguments (seqArgs "seqrewr" 16 16 0) = .ok cfg ∧ cfg.fsyncEnd = true ∧
      writingMode cfg = true ∧ cfg.ioMode = .sync ∧
      ∃ hist s, Run (turn cfg (limited 1 2 (by decide)) 0) (startPool fun _ => (0, 0)) hist s ∧
        (∀ t < 2, s.worker t = .finished) ∧ ¬ WritesSynced s.disk := by
  refine ⟨_, parseArguments_seqArgs rfl (by decide) (by decide) (by decide), rfl, rfl,
    rfl, ?_⟩
  have h : (Run.play (oneWrite 2) (startPool fun _ => (0, 0))
      [.take ⟨0, [], 0, 0⟩, .take ⟨1, [], 0, 0⟩, .execute 1 .again, .execute 0 .again,
        .take ⟨0, [], 0, 0⟩, .take ⟨1, [], 0, 0⟩]).map
          (fun p => (p.2.disk, p.2.worker 0, p.2.worker 1))
      = some ([fsyncOf 0, ⟨0, 0, 16, .write⟩], .finished, .finished) := by
    decide +kernel
  obtain ⟨⟨hist, s⟩, hplay, hs⟩ := Option.map_eq_some_iff.mp h
  simp only [Prod.mk.injEq] at hs
  obtain ⟨hdisk, h0, h1⟩ := hs
  refine ⟨hist, s, Run.of_play hplay, fun t ht => ?_, fun hsync => ?_⟩
  · interval_cases t
    · exact h0
    · exact h1
  · obtain ⟨q, hq, -⟩ := hsync [fsyncOf 0] _ [] hdisk rfl
    cases hq

end Sysbench.Fileio
