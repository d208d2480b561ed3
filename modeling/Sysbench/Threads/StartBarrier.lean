import Sysbench.Machinery.Traces
import Sysbench.Threads.Barrier

/-!
# Threads/StartBarrier — how `run_test` starts its threads

The main thread, the workers and up to three helper threads meet at `thread_start_barrier`; its
callback `threads_started_callback` starts the timers, or refuses if a worker has reported that it
could not be initialised.  A state is the barrier, with the globals the callback works on, and how
far each thread has come; any thread may move next.
-/

namespace Sysbench.Threads

/-- The options `run_test` reads.  There are fewer threads than an `unsigned int` can count: no
system creates that many. -/
structure RunConfig where
  numThreads : ℕ
  reportInterval : ℕ
  txRate : ℕ
  nCheckpoints : ℕ
  numThreads_lt : numThreads + 4 < 2 ^ 32

/-- The threads `run_test` may create, itself included. -/
inductive Thread (n : ℕ)
  | main
  | report
  | eventgen
  | checkpoints
  | worker (i : Fin n)
  deriving DecidableEq

/-- The threads, as four special ones and the workers. -/
def threadEquiv (n : ℕ) : Thread n ≃ Fin 4 ⊕ Fin n where
  toFun
    | .main => .inl 0
    | .report => .inl 1
    | .eventgen => .inl 2
    | .checkpoints => .inl 3
    | .worker i => .inr i
  invFun
    | .inl 0 => .main
    | .inl 1 => .report
    | .inl 2 => .eventgen
    | .inl 3 => .checkpoints
    | .inr i => .worker i
  left_inv t := by cases t <;> rfl
  right_inv x := by
    rcases x with x | i
    · fin_cases x <;> rfl
    · rfl

instance (n : ℕ) : Fintype (Thread n) := Fintype.ofEquiv _ (threadEquiv n).symm

namespace RunConfig

variable (cfg : RunConfig)

/-- Whether `run_test` creates the thread. -/
def creates : Thread cfg.numThreads → Bool
  | .main => true
  | .report => 0 < cfg.reportInterval
  | .eventgen => 0 < cfg.txRate
  | .checkpoints => 0 < cfg.nCheckpoints
  | .worker _ => true

/-- The participants of `thread_start_barrier`. -/
def Participant : Type := { t : Thread cfg.numThreads // cfg.creates t }

instance : DecidableEq cfg.Participant := inferInstanceAs (DecidableEq { t // cfg.creates t })

instance : Fintype cfg.Participant := inferInstanceAs (Fintype { t // cfg.creates t })

/-- The main thread. -/
def main : cfg.Participant := ⟨.main, rfl⟩

instance : Nonempty cfg.Participant := ⟨cfg.main⟩

/-- `barrier_threads`, in `unsigned int` arithmetic. -/
def barrierThreads : ℕ :=
  toU32 (1 + cfg.numThreads + (if 0 < cfg.reportInterval then 1 else 0) +
    (if 0 < cfg.txRate then 1 else 0) + (if 0 < cfg.nCheckpoints then 1 else 0))

/-- **The barrier counts its participants.** -/
theorem card_participant : Fintype.card cfg.Participant = cfg.barrierThreads := by
  have hsum : Fintype.card cfg.Participant
      = ∑ x, if cfg.creates ((threadEquiv cfg.numThreads).symm x) then 1 else 0 := by
    rw [show Fintype.card cfg.Participant = Fintype.card { t // cfg.creates t } from rfl,
      Fintype.card_subtype, Finset.card_filter, ← (threadEquiv cfg.numThreads).symm.sum_comp]
  have hlt := cfg.numThreads_lt
  rw [hsum, Fintype.sum_sum_type, Fin.sum_univ_four, barrierThreads, toU32]
  simp only [threadEquiv, Equiv.coe_fn_symm_mk, creates, if_true, decide_eq_true_eq,
    Finset.sum_const, Finset.card_univ, Fintype.card_fin, smul_eq_mul, mul_one]
  split_ifs <;> omega

theorem card_lt : Fintype.card cfg.Participant < 2 ^ 32 := by
  rw [card_participant]
  exact toU32_lt _

end RunConfig

/-- The globals of the start: `sb_globals.error`, `num_running` and the timers. -/
structure Globals where
  error : Bool := false
  numRunning : ℕ := 0
  timersStarted : Bool := false
  deriving DecidableEq, Repr

/-- `threads_started_callback`. -/
def threadsStartedCallback (numThreads : ℕ) (g : Globals) : ℤ × Globals :=
  if g.error then (1, g) else (0, { g with numRunning := numThreads, timersStarted := true })

/-- How far a thread has come: before `thread_init`, before the barrier, in it, past it, gone. -/
inductive Stage
  | starting
  | ready
  | waiting
  | running
  | finished
  deriving DecidableEq, Repr

variable {cfg : RunConfig}

/-- The barrier and the threads. -/
structure StartState (cfg : RunConfig) where
  bar : Barrier cfg.Participant Globals
  stage : cfg.Participant → Stage

/-- Every thread is created; nobody has moved. -/
def startState (cfg : RunConfig) : StartState cfg where
  bar := ⟨cfg.barrierThreads, cfg.barrierThreads, 0, false, none, {}, fun _ => .outside⟩
  stage := fun _ => .starting

/-- What a thread may do next. -/
inductive StartMove (cfg : RunConfig)
  | threadInit (t : cfg.Participant)
  | barrier (t : cfg.Participant) (m : BarrierMove)
  | proceed (t : cfg.Participant)
  | request (t : cfg.Participant) (err again : Bool)

/-- What is recorded of a move. -/
inductive StartObs (cfg : RunConfig)
  | callback
  | request (t : cfg.Participant)
  | runTest (ret : ℤ)
  | quiet
  deriving DecidableEq

section Step

variable (fails : Fin cfg.numThreads → Bool)

/-- The thread is a worker whose `thread_init` fails. -/
def initFails (t : cfg.Participant) : Bool :=
  match t.1 with
  | .worker i => fails i
  | _ => false

/-- The thread is a worker. -/
def isWorker (t : cfg.Participant) : Bool :=
  match t.1 with
  | .worker _ => true
  | _ => false

/-- `sb_globals.error = 1`. -/
def setError (err : Bool) (b : Barrier cfg.Participant Globals) : Barrier cfg.Participant Globals :=
  { b with shared := { b.shared with error := b.shared.error || err } }

/-- Of the steps inside the barrier, the callback is recorded. -/
def barrierObs (m : BarrierMove) : StartObs cfg := if m = .callback then .callback else .quiet

/-- The thread goes on to `stage`. -/
def StartState.goto (s : StartState cfg) (t : cfg.Participant) (stage : Stage) : StartState cfg :=
  { s with stage := Function.update s.stage t stage }

/-- A step of one thread.  `run_test` returns 1 when the barrier tells it to; a worker that could
not be initialised leaves whatever the barrier tells it. -/
def startStep (s : StartState cfg) : StartMove cfg → Option (StartObs cfg × StartState cfg)
  | .threadInit t =>
    if s.stage t = .starting then
      some (.quiet, { s with bar := setError (initFails fails t) s.bar }.goto t .ready)
    else none
  | .barrier t .call =>
    if s.stage t = .ready then
      (s.bar.step (some (threadsStartedCallback cfg.numThreads)) t .call).map fun b =>
        (.quiet, { s with bar := b }.goto t .waiting)
    else none
  | .barrier t m =>
    (s.bar.step (some (threadsStartedCallback cfg.numThreads)) t m).map fun b =>
      (barrierObs m, { s with bar := b })
  | .proceed t =>
    match s.stage t, s.bar.pc t with
    | .waiting, .returned res =>
      some (if t = cfg.main ∧ res < 0 then .runTest 1 else .quiet,
        s.goto t (if initFails fails t ∨ res < 0 then .finished else .running))
    | _, _ => none
  | .request t err again =>
    if isWorker t ∧ s.stage t = .running then
      some (.request t, { s with bar := setError err s.bar }.goto t
        (if again then .running else .finished))
    else none

end Step

/-- The barrier of `run_test` can be initialised, and nobody is in it then. -/
theorem sbBarrierInit_startState (cfg : RunConfig) :
    sbBarrierInit cfg.barrierThreads {} = some (startState cfg).bar := by
  have hpos : 0 < cfg.barrierThreads := cfg.card_participant ▸ Fintype.card_pos
  exact if_neg hpos.ne'

/-! ## The invariant -/

variable {fails : Fin cfg.numThreads → Bool} {outs : List (StartObs cfg)} {s s' : StartState cfg}
  {t : cfg.Participant}

/-- Where a thread is in the barrier, from how far it has come. -/
def StageOk (fails : Fin cfg.numThreads → Bool) (s : StartState cfg) (t : cfg.Participant) : Prop :=
  match s.stage t with
  | .starting | .ready => s.bar.pc t = .outside
  | .waiting => s.bar.pc t ≠ .outside
  | .running => ∃ r, s.bar.pc t = .returned r ∧ 0 ≤ r ∧ initFails fails t = false
  | .finished => ∃ r, s.bar.pc t = .returned r

/-- `sb_globals.error` has been set by the workers that failed so far. -/
def ErrorOk (fails : Fin cfg.numThreads → Bool) (s : StartState cfg) : Prop :=
  s.bar.shared.error = true ↔ ∃ t, initFails fails t = true ∧ s.stage t ≠ .starting

/-- **The phase of the start**, after `calls` calls of the callback. -/
inductive StartPhase (fails : Fin cfg.numThreads → Bool) (calls : ℕ) (s : StartState cfg) : Prop
  | gathering : Gathering s.bar → calls = 0 → ErrorOk fails s → StartPhase fails calls s
  | tripped (leader : cfg.Participant) : Tripped s.bar leader → calls = 0 → ErrorOk fails s →
      StartPhase fails calls s
  | released (leader : cfg.Participant) (ok : Bool) : Released s.bar leader ok → calls = 1 →
      (ok = true ↔ ∀ t, initFails fails t = false) →
      (ok = true → s.bar.shared.timersStarted = true) → StartPhase fails calls s

/-- **The invariant of the start.** -/
structure StartInv (fails : Fin cfg.numThreads → Bool) (outs : List (StartObs cfg))
    (s : StartState cfg) : Prop where
  phase : StartPhase fails (outs.count .callback) s
  stages : ∀ t, StageOk fails s t
  requests : ∀ t, .request t ∈ outs → ∀ u, initFails fails u = false
  runTest : ∀ ret, .runTest ret ∈ outs → ret = 1
  mainDone : s.stage cfg.main = .finished → .runTest 1 ∈ outs

namespace StartPhase

variable {calls : ℕ}

/-- Somebody is still outside: the threads gather. -/
theorem of_outside (h : StartPhase fails calls s) (ht : s.bar.pc t = .outside) :
    Gathering s.bar ∧ calls = 0 ∧ ErrorOk fails s := by
  cases h with
  | gathering hg hc he => exact ⟨hg, hc, he⟩
  | tripped leader htr _ _ =>
    by_cases hl : t = leader
    · rw [hl, htr.last] at ht
      cases ht
    · rw [htr.others t hl] at ht
      cases ht
  | released leader ok hr _ _ _ =>
    by_cases hl : t = leader
    · rcases hr.leads with hp | hp <;> rw [← hl, ht] at hp <;> cases hp
    · rcases hr.others t hl with hp | hp | hp | hp <;> rw [ht] at hp <;> cases hp

/-- Somebody has returned: the callback has run, and its answer is what it returned. -/
theorem of_returned {r : ℤ} (h : StartPhase fails calls s) (ht : s.bar.pc t = .returned r) :
    ∃ leader ok, Released s.bar leader ok ∧ calls = 1 ∧
      (ok = true ↔ ∀ t, initFails fails t = false) ∧
      (ok = true → s.bar.shared.timersStarted = true) ∧
      r = if t = leader then leaderRes ok else otherRes ok := by
  cases h with
  | gathering hg hc he => rcases hg.pcs t with hp | hp | hp | hp <;> rw [ht] at hp <;> cases hp
  | tripped leader htr _ _ =>
    by_cases hl : t = leader
    · rw [hl, htr.last] at ht
      cases ht
    · rw [htr.others t hl] at ht
      cases ht
  | released leader ok hr hc hok htimers =>
    refine ⟨leader, ok, hr, hc, hok, htimers, ?_⟩
    split_ifs with hl
    · rcases hr.leads with hp | hp <;> rw [← hl, ht] at hp <;> cases hp
      rfl
    · rcases hr.others t hl with hp | hp | hp | hp <;> rw [ht] at hp <;> cases hp
      rfl

end StartPhase

theorem startInv_startState (fails : Fin cfg.numThreads → Bool) :
    StartInv fails [] (startState cfg) where
  phase := by
    refine .gathering (gathering_init (sbBarrierInit_startState cfg) cfg.card_participant.symm)
      rfl ?_
    simp [ErrorOk, startState]
  stages _ := rfl
  requests _ h := by simp at h
  runTest _ h := by simp at h
  mainDone h := by simp [startState] at h

/-- A change of the shared globals is none of the barrier's business. -/
theorem gathering_setError {b : Barrier cfg.Participant Globals} (err : Bool) (h : Gathering b) :
    Gathering (setError err b) :=
  ⟨h.serial, h.error, h.count, h.pos, h.pcs, h.owner⟩

theorem released_setError {b : Barrier cfg.Participant Globals} {leader : cfg.Participant}
    {ok : Bool} (err : Bool) (h : Released b leader ok) : Released (setError err b) leader ok :=
  ⟨h.serial, h.error, h.leads, h.others, h.owner⟩

/-! ## Every step keeps it -/

theorem goto_stage_of_ne {u : cfg.Participant} {stage : Stage} (hu : u ≠ t) :
    (s.goto t stage).stage u = s.stage u := Function.update_of_ne hu ..

@[simp] theorem goto_stage_self {stage : Stage} : (s.goto t stage).stage t = stage :=
  Function.update_self ..

/-- Only the stage and the position of a thread decide whether they fit. -/
theorem stageOk_congr {u : cfg.Participant} (h : StageOk fails s u)
    (hstage : s'.stage u = s.stage u) (hpc : s'.bar.pc u = s.bar.pc u) : StageOk fails s' u := by
  unfold StageOk
  rw [hstage, hpc]
  exact h

theorem StartInv.threadInit (h : StartInv fails outs s) (ht : s.stage t = .starting) :
    StartInv fails (outs ++ [StartObs.quiet])
      ({ s with bar := setError (initFails fails t) s.bar }.goto t .ready) := by
  have hpc : s.bar.pc t = .outside := by simpa [StageOk, ht] using h.stages t
  obtain ⟨hg, hcalls, herr⟩ := h.phase.of_outside hpc
  refine ⟨.gathering (gathering_setError _ hg) (by simpa using hcalls) ?_, fun u => ?_,
    fun u hu => h.requests u (by simpa using hu), fun c hc => h.runTest c (by simpa using hc), ?_⟩
  · -- the flag is set now if it was before, or if this thread sets it
    have hflag : (setError (initFails fails t) s.bar).shared.error = true ↔
        s.bar.shared.error = true ∨ initFails fails t = true := by simp [setError]
    refine hflag.trans ⟨fun hor => ?_, fun ⟨u, hu, hstage⟩ => ?_⟩
    · rcases hor with he | hf
      · obtain ⟨u, hu, hstage⟩ := herr.mp he
        have hne : u ≠ t := fun heq => hstage (heq ▸ ht)
        exact ⟨u, hu, by rwa [goto_stage_of_ne hne]⟩
      · exact ⟨t, hf, by simp⟩
    · by_cases hut : u = t
      · exact .inr (hut ▸ hu)
      · rw [goto_stage_of_ne hut] at hstage
        exact .inl (herr.mpr ⟨u, hu, hstage⟩)
  · by_cases hu : u = t
    · subst hu
      rw [StageOk, goto_stage_self]
      exact hpc
    · exact stageOk_congr (h.stages u) (goto_stage_of_ne hu) rfl
  · intro hm
    by_cases hmain : cfg.main = t
    · rw [hmain, goto_stage_self] at hm
      cases hm
    · rw [goto_stage_of_ne hmain] at hm
      exact List.mem_append_left _ (h.mainDone hm)

theorem StartInv.call {b : Barrier cfg.Participant Globals}
    {callback : Option (Globals → ℤ × Globals)} (h : StartInv fails outs s)
    (ht : s.stage t = .ready) (hs : s.bar.step callback t .call = some b) :
    StartInv fails (outs ++ [StartObs.quiet]) ({ s with bar := b }.goto t .waiting) := by
  have hpc : s.bar.pc t = .outside := by simpa [StageOk, ht] using h.stages t
  obtain ⟨hg, hcalls, herr⟩ := h.phase.of_outside hpc
  obtain ⟨-, hshared, hphase⟩ := hg.step cfg.card_lt hs
  have hg' : Gathering b := hphase.resolve_right fun hm => nomatch hm.1
  have hb : b = s.bar.goto t s.bar.owner .locking := by
    simpa [Barrier.step, hpc] using hs.symm
  refine ⟨.gathering hg' (by simpa using hcalls) ?_, fun u => ?_,
    fun u hu => h.requests u (by simpa using hu), fun c hc => h.runTest c (by simpa using hc), ?_⟩
  · have hstage : ∀ u, ({ s with bar := b }.goto t .waiting).stage u ≠ .starting ↔
        s.stage u ≠ .starting := by
      intro u
      by_cases hu : u = t
      · simp [hu, ht]
      · rw [goto_stage_of_ne hu]
    unfold ErrorOk at herr ⊢
    simp only [hstage]
    rw [← herr, ← hshared]
    rfl
  · by_cases hu : u = t
    · subst hu
      simp [StageOk, StartState.goto, hb]
    · subst hb
      exact stageOk_congr (h.stages u) (goto_stage_of_ne hu) (goto_pc_of_ne hu)
  · intro hm
    by_cases hmain : cfg.main = t
    · rw [hmain, goto_stage_self] at hm
      cases hm
    · rw [goto_stage_of_ne hmain] at hm
      exact List.mem_append_left _ (h.mainDone hm)

/-- Whoever is inside the barrier is waiting. -/
theorem stage_eq_waiting (h : StageOk fails s t) (hout : s.bar.pc t ≠ .outside)
    (hret : ∀ r, s.bar.pc t ≠ .returned r) : s.stage t = .waiting := by
  unfold StageOk at h
  split at h
  · exact (hout h).elim
  · exact (hout h).elim
  · assumption
  · exact (hret _ h.choose_spec.1).elim
  · exact (hret _ h.choose_spec).elim

/-- A step inside the barrier leaves every thread where its stage says. -/
theorem stageOk_of_step {b : Barrier cfg.Participant Globals}
    {callback : Option (Globals → ℤ × Globals)} {m : BarrierMove} (h : ∀ u, StageOk fails s u)
    (hm : m ≠ .call) (hs : s.bar.step callback t m = some b) (u : cfg.Participant) :
    StageOk fails { s with bar := b } u := by
  obtain ⟨hout, hout', hret, hothers⟩ := step_pc hm hs
  by_cases hu : u = t
  · subst hu
    simpa [StageOk, stage_eq_waiting (h u) hout hret] using hout'
  · rcases hothers u hu with hsame | ⟨serial, g, hold, hnew⟩
    · exact stageOk_congr (h u) rfl hsame
    · have hstage := stage_eq_waiting (h u) (by simp [hold]) (by simp [hold])
      simp [StageOk, hstage, hnew]

/-- The callback agrees when no worker has failed, and starts the timers then. -/
theorem callbackOk_threadsStarted {n : ℕ} {g : Globals} :
    ((callbackOk (some (threadsStartedCallback n)) g).1 = true ↔ g.error = false) ∧
      (g.error = false →
        (callbackOk (some (threadsStartedCallback n)) g).2.timersStarted = true) := by
  cases h : g.error <;> simp [callbackOk, threadsStartedCallback, h]

/-- Whoever is in the barrier has been through `thread_init`. -/
theorem stage_ne_starting (h : StageOk fails s t) (ht : s.bar.pc t ≠ .outside) :
    s.stage t ≠ .starting := by
  intro hs
  exact ht (by simpa [StageOk, hs] using h)

theorem StartInv.barrier {b : Barrier cfg.Participant Globals} {m : BarrierMove}
    (h : StartInv fails outs s) (hm : m ≠ .call)
    (hs : s.bar.step (some (threadsStartedCallback cfg.numThreads)) t m = some b) :
    StartInv fails (outs ++ [barrierObs m]) { s with bar := b } := by
  have hmem : ∀ o : StartObs cfg, o ≠ .callback → o ≠ .quiet → o ∈ outs ++ [barrierObs m] →
      o ∈ outs := by
    intro o hc hq ho
    unfold barrierObs at ho
    split_ifs at ho <;> simpa [hc, hq] using ho
  refine ⟨?_, stageOk_of_step h.stages hm hs, fun u hu => h.requests u (hmem _ nofun nofun hu),
    fun c hc => h.runTest c (hmem _ nofun nofun hc),
    fun hd => List.mem_append_left _ (h.mainDone hd)⟩
  cases h.phase with
  | gathering hg hcalls herr =>
    obtain ⟨hcb, hshared, hphase⟩ := hg.step cfg.card_lt hs
    have herr' : ErrorOk fails { s with bar := b } := by
      unfold ErrorOk at herr ⊢
      rw [← herr, ← hshared]
    have hcount : (outs ++ [barrierObs m]).count StartObs.callback = 0 := by
      simpa [barrierObs, hcb] using hcalls
    rcases hphase with hg' | ⟨-, htr⟩
    · exact .gathering hg' hcount herr'
    · exact .tripped t htr hcount herr'
  | tripped leader htr hcalls herr =>
    obtain ⟨rfl, hshared, hrel⟩ := htr.step hs
    obtain ⟨hok, htimers⟩ := @callbackOk_threadsStarted cfg.numThreads s.bar.shared
    -- everybody is in the barrier, so every worker that failed has set the flag
    have hall : s.bar.shared.error = false ↔ ∀ u, initFails fails u = false := by
      unfold ErrorOk at herr
      rw [← Bool.not_eq_true, herr, not_exists]
      refine forall_congr' fun u => ?_
      have hin : s.bar.pc u ≠ .outside := by
        by_cases hu : u = leader
        · simp [hu, htr.last]
        · simp [htr.others u hu]
      simp [stage_ne_starting (h.stages u) hin]
    refine .released leader _ hrel (by simpa [barrierObs] using hcalls) (hok.trans hall)
      fun ho => ?_
    rw [hshared]
    exact htimers (hok.mp ho)
  | released leader ok hrel hcalls hok htimers =>
    obtain ⟨hcb, hshared, hrel'⟩ := hrel.step hm hs
    exact .released leader ok hrel' (by simpa [barrierObs, hcb] using hcalls) hok fun ho =>
      hshared ▸ htimers ho

theorem initFails_main : initFails fails cfg.main = false := rfl

theorem StartInv.proceed {res : ℤ} (h : StartInv fails outs s) (hpc : s.bar.pc t = .returned res) :
    StartInv fails (outs ++ [if t = cfg.main ∧ res < 0 then StartObs.runTest 1 else .quiet])
      (s.goto t (if initFails fails t ∨ res < 0 then .finished else .running)) := by
  obtain ⟨leader, ok, hrel, hcalls, hok, htimers, -⟩ := h.phase.of_returned hpc
  refine ⟨.released leader ok hrel ?_ hok htimers, fun u => ?_, fun u hu => h.requests u ?_,
    fun c hc => ?_, fun hd => ?_⟩
  · split_ifs <;> simpa using hcalls
  · by_cases hu : u = t
    · subst hu
      rw [StageOk, goto_stage_self]
      by_cases hleave : initFails fails u ∨ res < 0
      · rw [if_pos hleave]
        exact ⟨res, hpc⟩
      · rw [if_neg hleave]
        rw [not_or] at hleave
        exact ⟨res, hpc, not_lt.mp hleave.2, by simpa using hleave.1⟩
    · exact stageOk_congr (h.stages u) (goto_stage_of_ne hu) rfl
  · split_ifs at hu <;> simpa using hu
  · split_ifs at hc
    · rcases List.mem_append.mp hc with hc | hc
      · exact h.runTest c hc
      · simpa using hc
    · exact h.runTest c (by simpa using hc)
  · by_cases hmain : cfg.main = t
    · subst hmain
      rw [goto_stage_self, initFails_main] at hd
      by_cases hres : res < 0
      · simp [hres]
      · simp [hres] at hd
    · rw [goto_stage_of_ne hmain] at hd
      exact List.mem_append_left _ (h.mainDone hd)

theorem StartInv.request (h : StartInv fails outs s) (hw : isWorker t = true)
    (ht : s.stage t = .running) (err again : Bool) :
    StartInv fails (outs ++ [StartObs.request t])
      ({ s with bar := setError err s.bar }.goto t (if again then .running else .finished)) := by
  obtain ⟨r, hpc, hr, hfail⟩ :
    ∃ r, s.bar.pc t = .returned r ∧ 0 ≤ r ∧ initFails fails t = false := by
    simpa [StageOk, ht] using h.stages t
  obtain ⟨leader, ok, hrel, hcalls, hok, htimers, hres⟩ := h.phase.of_returned hpc
  -- a worker past the barrier was not turned away
  have htrue : ok = true := by
    by_contra hne
    rw [Bool.not_eq_true] at hne
    subst hne
    simp only [leaderRes, otherRes, Bool.false_eq_true, if_false, ite_self] at hres
    omega
  have hmain : cfg.main ≠ t := by
    rintro rfl
    simp [isWorker, RunConfig.main] at hw
  refine ⟨.released leader ok (released_setError err hrel) (by simpa using hcalls) hok htimers,
    fun u => ?_, fun u _ => hok.mp htrue, fun c hc => h.runTest c (by simpa using hc), fun hd => ?_⟩
  · by_cases hu : u = t
    · subst hu
      rw [StageOk, goto_stage_self]
      cases again
      · exact ⟨r, hpc⟩
      · exact ⟨r, hpc, hr, hfail⟩
    · exact stageOk_congr (h.stages u) (goto_stage_of_ne hu) rfl
  · rw [goto_stage_of_ne hmain] at hd
    exact List.mem_append_left _ (h.mainDone hd)

/-- **Every step keeps the invariant.** -/
theorem startInv_step {m : StartMove cfg} {o : StartObs cfg} (h : StartInv fails outs s)
    (hs : startStep fails s m = some (o, s')) : StartInv fails (outs ++ [o]) s' := by
  cases m with
  | threadInit t =>
    simp only [startStep, Option.ite_none_right_eq_some, Option.some.injEq, Prod.mk.injEq] at hs
    obtain ⟨ht, rfl, rfl⟩ := hs
    exact h.threadInit ht
  | barrier t m =>
    by_cases hm : m = .call
    · subst hm
      simp only [startStep, Option.ite_none_right_eq_some, Option.map_eq_some_iff,
        Prod.mk.injEq] at hs
      obtain ⟨ht, b, hb, rfl, rfl⟩ := hs
      exact h.call ht hb
    · have hs' : (s.bar.step (some (threadsStartedCallback cfg.numThreads)) t m).map (fun b =>
          (barrierObs m, { s with bar := b })) = some (o, s') := by
        cases m <;> first | exact (hm rfl).elim | exact hs
      obtain ⟨b, hb, hos⟩ := Option.map_eq_some_iff.mp hs'
      cases hos
      exact h.barrier hm hb
  | proceed t =>
    simp only [startStep] at hs
    split at hs
    · rename_i res _ hpc
      cases hs
      exact h.proceed hpc
    · cases hs
  | request t err again =>
    simp only [startStep, Option.ite_none_right_eq_some, Option.some.injEq, Prod.mk.injEq] at hs
    obtain ⟨⟨hw, ht⟩, rfl, rfl⟩ := hs
    exact h.request hw ht err again

/-! ## Nobody is stuck

From every state that can be reached some thread can move towards the end of the start, without
waiting for a spurious wake-up: the holder of the mutex, if there is one; else a thread that has
not come yet; else a sleeper that was told to wake up. -/

/-- How far a thread is from leaving `sb_barrier_wait`. -/
def waitRank (serial : ℕ) : WaitPc → ℕ
  | .outside => 0
  | .locking => 6
  | .last => 5
  | .woken k => if k = serial then 5 else 3
  | .sleeping _ _ => 4
  | .leaving _ => 2
  | .returned _ => 1

/-- How far a thread is from being past the barrier. -/
def rank (s : StartState cfg) (t : cfg.Participant) : ℕ :=
  match s.stage t with
  | .starting => 8
  | .ready => 7
  | .waiting => waitRank s.bar.serial (s.bar.pc t)
  | .running | .finished => 0

/-- Some move brings the threads nearer to the end. -/
def CanAdvance (fails : Fin cfg.numThreads → Bool) (s : StartState cfg) : Prop :=
  ∃ m o s', startStep fails s m = some (o, s') ∧ ∑ t, rank s' t < ∑ t, rank s t

theorem sum_rank_lt (ht : rank s' t < rank s t) (hothers : ∀ u, u ≠ t → rank s' u = rank s u) :
    ∑ u, rank s' u < ∑ u, rank s u := by
  refine Finset.sum_lt_sum (fun u _ => ?_) ⟨t, Finset.mem_univ t, ht⟩
  by_cases hu : u = t
  · exact hu ▸ ht.le
  · exact (hothers u hu).le

theorem startStep_barrier {m : BarrierMove} (hm : m ≠ .call) :
    startStep fails s (.barrier t m)
      = (s.bar.step (some (threadsStartedCallback cfg.numThreads)) t m).map fun b =>
        (barrierObs m, { s with bar := b }) := by
  cases m <;> first | exact (hm rfl).elim | rfl

/-- A step inside the barrier that brings its thread nearer. -/
theorem canAdvance_barrier {b : Barrier cfg.Participant Globals} {m : BarrierMove} (hm : m ≠ .call)
    (hs : s.bar.step (some (threadsStartedCallback cfg.numThreads)) t m = some b)
    (hstage : s.stage t = .waiting)
    (ht : waitRank b.serial (b.pc t) < waitRank s.bar.serial (s.bar.pc t))
    (hothers : ∀ u, u ≠ t → waitRank b.serial (b.pc u) = waitRank s.bar.serial (s.bar.pc u)) :
    CanAdvance fails s := by
  refine ⟨.barrier t m, _, { s with bar := b }, by rw [startStep_barrier hm, hs]; rfl,
    sum_rank_lt (t := t) ?_ fun u hu => ?_⟩
  · simpa [rank, hstage] using ht
  · simp only [rank, hothers u hu]

/-- The same, for a step that moves nobody else. -/
theorem canAdvance_goto {d : Barrier cfg.Participant Globals} {o : Option cfg.Participant}
    {p : WaitPc} {m : BarrierMove} (hm : m ≠ .call)
    (hs : s.bar.step (some (threadsStartedCallback cfg.numThreads)) t m = some (d.goto t o p))
    (hserial : d.serial = s.bar.serial) (hpc : d.pc = s.bar.pc) (hstage : s.stage t = .waiting)
    (ht : waitRank s.bar.serial p < waitRank s.bar.serial (s.bar.pc t)) : CanAdvance fails s := by
  refine canAdvance_barrier hm hs hstage ?_ fun u hu => ?_
  · rw [goto_pc_self]
    exact hserial.symm ▸ ht
  · rw [goto_pc_of_ne hu, hpc]
    exact hserial.symm ▸ rfl

/-- The holder of the mutex can go on. -/
theorem canAdvance_owner (h : StartInv fails outs s) (ho : s.bar.owner = some t) :
    CanAdvance fails s := by
  have hwait := stage_eq_waiting (h.stages t)
  cases h.phase with
  | gathering hg _ _ =>
    have hp := (hg.owner t).mp ho
    have hs : s.bar.step (some (threadsStartedCallback cfg.numThreads)) t .test
        = some (s.bar.goto t none (.sleeping 0 false)) := by
      simp [Barrier.step, hp, Barrier.test, hg.serial]
    exact canAdvance_goto (by simp) hs rfl rfl (hwait (by simp [hp]) (by simp [hp]))
      (by simp [hp, waitRank, hg.serial])
  | tripped leader htr _ _ =>
    obtain rfl : leader = t := Option.some.inj (htr.owner.symm.trans ho)
    have hp := htr.last
    have hs : s.bar.step (some (threadsStartedCallback cfg.numThreads)) leader .callback
        = some (s.bar.runCallback _ leader) := if_pos hp
    rw [runCallback_eq htr.error] at hs
    exact canAdvance_goto (by simp) hs rfl rfl (hwait (by simp [hp]) (by simp [hp]))
      (by simp [hp, waitRank])
  | released leader ok hrel _ _ _ =>
    rcases (hrel.owner t).mp ho with hp | ⟨r, hp⟩
    · have hs : s.bar.step (some (threadsStartedCallback cfg.numThreads)) t .test
          = some (s.bar.goto t s.bar.owner (.leaving (if s.bar.error then -1 else 0))) := by
        simp [Barrier.step, hp, Barrier.test, hrel.serial]
      exact canAdvance_goto (by simp) hs rfl rfl (hwait (by simp [hp]) (by simp [hp]))
        (by simp [hp, waitRank, hrel.serial])
    · have hs : s.bar.step (some (threadsStartedCallback cfg.numThreads)) t .unlock
          = some (s.bar.goto t none (.returned r)) := by
        simp [Barrier.step, hp]
      exact canAdvance_goto (by simp) hs rfl rfl (hwait (by simp [hp]) (by simp [hp]))
        (by simp [hp, waitRank])

/-- A thread at the door comes in, when the mutex is free. -/
theorem canAdvance_locking (h : StartInv fails outs s) (ho : s.bar.owner = none)
    (hst : s.stage t = .waiting) (hp : s.bar.pc t = .locking) : CanAdvance fails s := by
  have hs : s.bar.step (some (threadsStartedCallback cfg.numThreads)) t .enter
      = some (s.bar.enter t) := if_pos ⟨hp, ho⟩
  cases h.phase with
  | gathering hg _ _ =>
    by_cases hcount : s.bar.count = 1
    · rw [enter_last hcount] at hs
      refine canAdvance_barrier (by simp) hs hst ?_ fun u hu => ?_
      · simp [hp, waitRank]
      · -- nobody holds the mutex, so nobody is awake to notice the new generation
        rw [goto_pc_of_ne hu]
        rcases hg.pcs u with hq | hq | hq | hq
        · simp [Barrier.trip, signalAll, hq, waitRank]
        · simp [Barrier.trip, signalAll, hq, waitRank]
        · simp [Barrier.trip, signalAll, hq, waitRank]
        · simp [(hg.owner u).mpr hq] at ho
    · have hpos := hg.pos
      rw [enter_sleep (by omega) (hg.count_lt cfg.card_lt)] at hs
      exact canAdvance_goto (by simp) hs rfl rfl hst (by simp [hp, waitRank])
  | tripped leader htr _ _ => simp [htr.owner] at ho
  | released leader ok hrel _ _ _ =>
    by_cases hl : t = leader
    · rcases hrel.leads with hq | hq <;> rw [← hl, hp] at hq <;> cases hq
    · rcases hrel.others t hl with hq | hq | hq | hq <;> rw [hp] at hq <;> cases hq

/-- A thread that has not been counted can come nearer, when the mutex is free. -/
theorem canAdvance_missing (h : StartInv fails outs s) (ho : s.bar.owner = none)
    (ht : (s.bar.pc t).entered = false) : CanAdvance fails s := by
  have hstage := h.stages t
  unfold StageOk at hstage
  split at hstage
  · -- before `thread_init`
    rename_i hst
    refine ⟨.threadInit t, _, _, if_pos hst, sum_rank_lt (t := t) ?_ fun u hu => ?_⟩
    · simp [rank, hst]
    · simp only [rank, goto_stage_of_ne hu]
      rfl
  · -- before the barrier
    rename_i hst
    refine ⟨.barrier t .call, .quiet, { s with bar := s.bar.goto t s.bar.owner .locking }.goto t
      .waiting, ?_, sum_rank_lt (t := t) ?_ fun u hu => ?_⟩
    · simp [startStep, hst, Barrier.step, hstage]
    · simp [rank, hst, StartState.goto, waitRank]
    · simp only [rank, goto_stage_of_ne hu]
      simp only [StartState.goto, goto_pc_of_ne hu]
      rfl
  · -- at the door
    rename_i hst
    have hp : s.bar.pc t = .locking := by
      cases hpc : s.bar.pc t <;> simp_all [WaitPc.entered]
    exact canAdvance_locking h ho hst hp
  · obtain ⟨r, hp, -⟩ := hstage
    simp [hp, WaitPc.entered] at ht
  · obtain ⟨r, hp⟩ := hstage
    simp [hp, WaitPc.entered] at ht

/-- A thread that has returned goes on. -/
theorem canAdvance_returned {r : ℤ} (hstage : s.stage t = .waiting)
    (hp : s.bar.pc t = .returned r) : CanAdvance fails s := by
  refine ⟨.proceed t, if t = cfg.main ∧ r < 0 then .runTest 1 else .quiet,
    s.goto t (if initFails fails t ∨ r < 0 then .finished else .running), ?_,
    sum_rank_lt (t := t) ?_ fun u hu => ?_⟩
  · simp only [startStep, hstage, hp]
  · simp only [rank, goto_stage_self, hstage, hp, waitRank]
    by_cases hleave : initFails fails t ∨ r < 0 <;> simp [hleave]
  · simp only [rank, goto_stage_of_ne hu]
    rfl

/-- **As long as a thread is not past the barrier, some thread can move on.** -/
theorem canAdvance (h : StartInv fails outs s) (ht : rank s t ≠ 0) : CanAdvance fails s := by
  cases ho : s.bar.owner with
  | some u => exact canAdvance_owner h ho
  | none =>
    by_cases hmiss : ∃ u, (s.bar.pc u).entered = false
    · obtain ⟨u, hu⟩ := hmiss
      exact canAdvance_missing h ho hu
    cases h.phase with
    | gathering hg _ _ =>
      obtain ⟨u, hu⟩ := Finset.card_pos.mp (hg.count ▸ hg.pos)
      exact (hmiss ⟨u, mem_missing.mp hu⟩).elim
    | tripped leader htr _ _ => simp [htr.owner] at ho
    | released leader ok hrel _ _ _ =>
      have hfree : ∀ u, ¬ (s.bar.pc u = .woken 0 ∨ ∃ r, s.bar.pc u = .leaving r) := fun u hu => by
        simp [(hrel.owner u).mpr hu] at ho
      have hcases : s.bar.pc t = .sleeping 0 true ∨ ∃ r, s.bar.pc t = .returned r := by
        by_cases hl : t = leader
        · subst hl
          exact hrel.leads.elim (fun hp => (hfree t (.inr ⟨_, hp⟩)).elim) fun hp => .inr ⟨_, hp⟩
        · rcases hrel.others t hl with hp | hp | hp | hp
          · exact .inl hp
          · exact (hfree t (.inl hp)).elim
          · exact (hfree t (.inr ⟨_, hp⟩)).elim
          · exact .inr ⟨_, hp⟩
      rcases hcases with hp | ⟨r, hp⟩
      · have hs : s.bar.step (some (threadsStartedCallback cfg.numThreads)) t .wake
            = some (s.bar.goto t (some t) (.woken 0)) := by simp [Barrier.step, hp, ho]
        exact canAdvance_goto (by simp) hs rfl rfl
          (stage_eq_waiting (h.stages t) (by simp [hp]) (by simp [hp]))
          (by simp [hp, waitRank, hrel.serial])
      · have hstage : s.stage t = .waiting := by
          have hok := h.stages t
          unfold rank at ht
          unfold StageOk at hok
          split at hok
          · simp [hp] at hok
          · simp [hp] at hok
          · assumption
          · simp_all
          · simp_all
        exact canAdvance_returned hstage hp

/-- **Every start can be completed**: from every state there is a run to one where all threads are
past the barrier. -/
theorem StartInv.complete (h : StartInv fails outs s) :
    ∃ outs' s', Trace (startStep fails) s outs' s' ∧ StartInv fails (outs ++ outs') s' ∧
      ∀ t, rank s' t = 0 := by
  induction hn : ∑ t, rank s t using Nat.strong_induction_on generalizing outs s with
  | _ n ih =>
    by_cases hall : ∀ t, rank s t = 0
    · exact ⟨[], s, .nil, by simpa using h, hall⟩
    · obtain ⟨t, ht⟩ := not_forall.mp hall
      obtain ⟨m, o, s₁, hs, hlt⟩ := canAdvance h ht
      obtain ⟨outs', s', htrace, hinv, hdone⟩ := ih _ (hn ▸ hlt) (startInv_step h hs) rfl
      exact ⟨[o] ++ outs', s', (Trace.nil.snoc hs).append htrace, by simpa using hinv, hdone⟩

/-- Whoever is past the barrier has returned from it. -/
theorem returned_of_rank {u : cfg.Participant} (h : StageOk fails s u) (hr : rank s u = 0) :
    ∃ r, s.bar.pc u = .returned r ∧ (s.stage u = .running ∨ s.stage u = .finished) := by
  unfold StageOk at h
  unfold rank at hr
  split at h
  · simp_all
  · simp_all
  · rename_i hst
    simp only [hst] at hr
    cases hp : s.bar.pc u <;> simp_all [waitRank]
    split_ifs at hr
  · rename_i hst
    exact ⟨_, h.choose_spec.1, .inl hst⟩
  · rename_i hst
    exact ⟨_, h.choose_spec, .inr hst⟩

/-! ## Every run of the start -/

/-- **What the start barrier guarantees** after the steps `outs`, which led to `s`. -/
structure StartOk (fails : Fin cfg.numThreads → Bool) (outs : List (StartObs cfg))
    (s : StartState cfg) : Prop where
  allEntered : ∀ t r, s.bar.pc t = .returned r → ∀ u, (s.bar.pc u).entered = true
  callbackOnce : outs.count .callback ≤ 1
  callbackFirst : ∀ t r, s.bar.pc t = .returned r → outs.count .callback = 1
  success : (∀ i, fails i = false) →
    (∀ t r, s.bar.pc t = .returned r → r = serialThread ∨ r = 0) ∧
    (∀ t u, s.bar.pc t = .returned serialThread → s.bar.pc u = .returned serialThread → t = u) ∧
    ((∀ t, ∃ r, s.bar.pc t = .returned r) → ∃ t, s.bar.pc t = .returned serialThread)
  timers : ∀ t err again, (startStep fails s (.request t err again)).isSome →
    s.bar.shared.timersStarted = true
  failure : (∃ i, fails i = true) →
    (∀ t r, s.bar.pc t = .returned r → r < 0) ∧ (∀ t, .request t ∉ outs) ∧
      ∀ ret, .runTest ret ∈ outs → ret = 1
  completes : ∃ outs' s', Trace (startStep fails) s outs' s' ∧
    (∀ t, ∃ r, s'.bar.pc t = .returned r) ∧
    ((∃ i, fails i = true) → .runTest 1 ∈ outs ++ outs')

/-- Every worker takes part. -/
def workerThread (i : Fin cfg.numThreads) : cfg.Participant := ⟨.worker i, rfl⟩

theorem forall_initFails_iff : (∀ t, initFails fails t = false) ↔ ∀ i, fails i = false := by
  refine ⟨fun h i => h (workerThread i), fun h t => ?_⟩
  unfold initFails
  split
  · exact h _
  · rfl

/-- In a released barrier nobody is outside. -/
theorem entered_of_released {leader : cfg.Participant} {ok : Bool} (h : Released s.bar leader ok)
    (u : cfg.Participant) : (s.bar.pc u).entered = true := by
  by_cases hu : u = leader
  · subst hu
    rcases h.leads with hp | hp <;> rw [hp] <;> rfl
  · rcases h.others u hu with hp | hp | hp | hp <;> rw [hp] <;> rfl

/-- No worker failed: the leader is the one that gets `SB_BARRIER_SERIAL_THREAD`. -/
theorem StartInv.success (h : StartInv fails outs s) (hf : ∀ i, fails i = false) :
    (∀ t r, s.bar.pc t = .returned r → r = serialThread ∨ r = 0) ∧
    (∀ t u, s.bar.pc t = .returned serialThread → s.bar.pc u = .returned serialThread → t = u) ∧
    ((∀ t, ∃ r, s.bar.pc t = .returned r) → ∃ t, s.bar.pc t = .returned serialThread) := by
  have hres : ∀ t r, s.bar.pc t = .returned r → ∃ leader, Released s.bar leader true ∧
      r = if t = leader then serialThread else 0 := by
    intro t r hp
    obtain ⟨leader, ok, hrel, -, hok, -, hr⟩ := h.phase.of_returned hp
    obtain rfl : ok = true := hok.mpr (forall_initFails_iff.mpr hf)
    exact ⟨leader, hrel, by simpa [leaderRes, otherRes] using hr⟩
  refine ⟨fun t r hp => ?_, fun t u ht hu => ?_, fun hall => ?_⟩
  · obtain ⟨leader, -, hr⟩ := hres t r hp
    by_cases hl : t = leader
    · exact .inl (by simpa [hl] using hr)
    · exact .inr (by simpa [hl] using hr)
  · obtain ⟨leader, hrel, hr⟩ := hres t _ ht
    have hlead : ∀ v, s.bar.pc v = .returned serialThread → v = leader := by
      intro v hv
      by_contra hne
      rcases hrel.others v hne with hp | hp | hp | hp <;> rw [hv] at hp <;> cases hp
    rw [hlead t ht, hlead u hu]
  · obtain ⟨r, hr⟩ := hall cfg.main
    obtain ⟨leader, hrel, -⟩ := hres _ r hr
    obtain ⟨r', hr'⟩ := hall leader
    refine ⟨leader, ?_⟩
    rcases hrel.leads with hp | hp
    · rw [hr'] at hp
      cases hp
    · exact hp

/-- Some worker failed: everybody is turned away. -/
theorem StartInv.failure (h : StartInv fails outs s) (hf : ∃ i, fails i = true) :
    (∀ t r, s.bar.pc t = .returned r → r < 0) ∧ ∀ t, .request t ∉ outs := by
  have hsome : ¬ ∀ t, initFails fails t = false := by
    rw [forall_initFails_iff, not_forall]
    obtain ⟨i, hi⟩ := hf
    exact ⟨i, by simp [hi]⟩
  refine ⟨fun t r hp => ?_, fun t hreq => hsome (h.requests t hreq)⟩
  obtain ⟨leader, ok, -, -, hok, -, hr⟩ := h.phase.of_returned hp
  have hno : ok = false := by simpa using mt hok.mp hsome
  subst hno
  rw [hr]
  split_ifs <;> simp [leaderRes, otherRes]

/-- A request finds the timers running. -/
theorem StartInv.timers (h : StartInv fails outs s) {err again : Bool}
    (hs : (startStep fails s (.request t err again)).isSome) :
    s.bar.shared.timersStarted = true := by
  obtain ⟨⟨o, s'⟩, hs⟩ := Option.isSome_iff_exists.mp hs
  simp only [startStep, Option.ite_none_right_eq_some] at hs
  obtain ⟨⟨-, hrun⟩, -⟩ := hs
  obtain ⟨r, hpc, hr, -⟩ : ∃ r, s.bar.pc t = .returned r ∧ 0 ≤ r ∧ initFails fails t = false := by
    simpa [StageOk, hrun] using h.stages t
  obtain ⟨leader, ok, -, -, -, htimers, hres⟩ := h.phase.of_returned hpc
  cases ok with
  | true => exact htimers rfl
  | false =>
    simp only [leaderRes, otherRes, Bool.false_eq_true, if_false, ite_self] at hres
    omega

/-- **The start barrier.**  For every number of workers, every choice of helper threads, every set
of workers that cannot be initialised and every order of steps: nobody returns before everybody has
come and the callback has run, once; the threads agree on its answer; and the start can always be
completed. -/
theorem startBarrier_ok (cfg : RunConfig) (fails : Fin cfg.numThreads → Bool)
    {outs : List (StartObs cfg)} {s : StartState cfg}
    (h : Trace (startStep fails) (startState cfg) outs s) : StartOk fails outs s := by
  have hinv : StartInv fails outs s := h.invariant (StartInv fails) (startInv_startState fails)
    fun _ _ _ _ _ hinv hs => startInv_step hinv hs
  refine ⟨fun t r hp => ?_, ?_, fun t r hp => ?_, hinv.success, fun _ _ _ => hinv.timers,
    fun hf => ⟨(hinv.failure hf).1, (hinv.failure hf).2, hinv.runTest⟩, ?_⟩
  · obtain ⟨leader, ok, hrel, -⟩ := hinv.phase.of_returned hp
    exact entered_of_released hrel
  · cases hinv.phase with
    | gathering _ hc _ => omega
    | tripped _ _ hc _ => omega
    | released _ _ _ hc _ _ => omega
  · obtain ⟨leader, ok, -, hc, -⟩ := hinv.phase.of_returned hp
    exact hc
  · obtain ⟨outs', s', htrace, hinv', hdone⟩ := hinv.complete
    have hret := fun t => returned_of_rank (hinv'.stages t) (hdone t)
    refine ⟨outs', s', htrace, fun t => (hret t).imp fun _ hr => hr.1, fun hf => ?_⟩
    -- the main thread is past the barrier, and was turned away
    obtain ⟨r, hp, hstage⟩ := hret cfg.main
    refine hinv'.mainDone (hstage.resolve_left fun hrun => ?_)
    obtain ⟨r', hp', hr', -⟩ : ∃ r, s'.bar.pc cfg.main = .returned r ∧ 0 ≤ r ∧
        initFails fails cfg.main = false := by
      simpa [StageOk, hrun] using hinv'.stages cfg.main
    exact absurd ((hinv'.failure hf).1 _ _ hp') (not_lt.mpr hr')

/-- One worker, and it cannot be initialised: it comes last, and `run_test` returns 1. -/
theorem startBarrier_ok_oneWorker :
    ∃ cfg : RunConfig, ∃ fails : Fin cfg.numThreads → Bool, ∃ outs s,
      StartOk fails outs s ∧ outs.count .callback = 1 ∧ .runTest 1 ∈ outs := by
  let cfg : RunConfig := ⟨1, 0, 0, 0, by norm_num⟩
  let fails : Fin cfg.numThreads → Bool := fun _ => true
  let w : cfg.Participant := workerThread 0
  have h₀ : Trace (startStep fails) (startState cfg) [] _ := .nil
  have h₁ := (h₀.snoc (i := .threadInit cfg.main) rfl).snoc (i := .barrier cfg.main .call) rfl
  have h₂ := (h₁.snoc (i := .barrier cfg.main .enter) rfl).snoc (i := .threadInit w) rfl
  have h₃ := (h₂.snoc (i := .barrier w .call) rfl).snoc (i := .barrier w .enter) rfl
  have h₄ := (h₃.snoc (i := .barrier w .callback) rfl).snoc (i := .barrier w .unlock) rfl
  have h₅ := (h₄.snoc (i := .barrier cfg.main .wake) rfl).snoc (i := .barrier cfg.main .test) rfl
  have h₆ := (h₅.snoc (i := .barrier cfg.main .unlock) rfl).snoc (i := .proceed cfg.main) rfl
  refine ⟨cfg, fails, _, _, startBarrier_ok cfg fails h₆, ?_, ?_⟩
  · decide
  · decide

end Sysbench.Threads
