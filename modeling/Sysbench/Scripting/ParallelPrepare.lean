import Sysbench.Threads.RequestLimit

/-!
# Scripting/ParallelPrepare — which tables `parallel_prepare.lua` creates

The event of worker `t` creates the tables `t + 1, t + 1 + N, …`: every table has one worker, and is
created once if that worker executes one event.  The header says to run the script with
`--max-requests` equal to the number `N` of workers, but requests go to whoever asks: a worker that
comes back before the others have asked takes one of theirs.

A worker executes as many events as it passes tests of the limit, and makes one test more
(`WorkerInv`), so the tables are created once exactly when each worker that has tables passes its
first test and not its second (`createInserts_iff`).
-/

namespace Sysbench.Scripting

open Threads Logging

/-- The values of `i` in the Lua loop `for i = i, stop, step`, as long as there is fuel. -/
def luaFor : ℕ → ℕ → ℕ → ℕ → List ℕ
  | 0, _, _, _ => []
  | fuel + 1, i, stop, step => if i ≤ stop then i :: luaFor fuel (i + step) stop step else []

/-- `event` of `parallel_prepare.lua`: the tables for which it calls `create_insert`, one after the
other. -/
def prepareEvent (numThreads tablesCount threadId : ℕ) : List ℕ :=
  luaFor (tablesCount + 1) (threadId + 1) tablesCount numThreads

/-- The calls of `create_insert` in a move: those of the event, which no error interrupts. -/
def insertsOf (numThreads tablesCount : ℕ) (e : Loop × LoopMove) : List ℕ :=
  match e.2.action with
  | .attempt (.success _) => prepareEvent numThreads tablesCount e.2.worker
  | _ => []

/-- The calls of `create_insert` in a run. -/
def createInserts (numThreads tablesCount : ℕ) (hist : List (Loop × LoopMove)) : List ℕ :=
  hist.flatMap (insertsOf numThreads tablesCount)

/-- The workers of the script, run as its header prescribes. -/
def prepareConfig (numThreads : ℕ) : LoopConfig := ⟨numThreads, numThreads, false⟩

/-- All workers have left their loops, and there were no database errors. -/
structure PreparedWithoutErrors (cfg : LoopConfig) (hist : List (Loop × LoopMove)) (s : Loop) : Prop
    extends RanOut cfg hist s where
  notRestarted : ∀ e ∈ hist, e.2.action ≠ .attempt .restart

/-- Worker `t` tests the limit. -/
def isTest (t : ℕ) (e : Loop × LoopMove) : Bool := e.2.worker = t && e.2.action = .test

/-- Worker `t` tests the limit, and passes. -/
def isPass (cfg : LoopConfig) (t : ℕ) (e : Loop × LoopMove) : Bool :=
  e.2.worker = t && passesTest cfg e

/-- Worker `t` has executed an event. -/
def isEvent (t : ℕ) (e : Loop × LoopMove) : Bool :=
  e.2.worker = t && match e.2.action with
    | .attempt (.success _) => true
    | _ => false

/-! ## The tables of an event -/

theorem stride_iff {i j step : ℕ} (hstep : 0 < step) (hne : i ≠ j) :
    (i + step ≤ j ∧ step ∣ j - (i + step)) ↔ (i ≤ j ∧ step ∣ j - i) := by
  constructor
  · rintro ⟨hle, hdvd⟩
    have hsub : j - i = j - (i + step) + step := by omega
    exact ⟨by omega, hsub ▸ Nat.dvd_add_self_right.mpr hdvd⟩
  · rintro ⟨hle, hdvd⟩
    have hpos : step ≤ j - i := Nat.le_of_dvd (by omega) hdvd
    have hsub : j - (i + step) = j - i - step := by omega
    exact ⟨by omega, hsub ▸ Nat.dvd_sub hdvd dvd_rfl⟩

theorem count_luaFor {step stop : ℕ} (hstep : 0 < step) (j : ℕ) {fuel i : ℕ}
    (hfuel : stop < fuel + i) :
    (luaFor fuel i stop step).count j = if j ≤ stop ∧ i ≤ j ∧ step ∣ j - i then 1 else 0 := by
  induction fuel generalizing i with
  | zero =>
    rw [if_neg (by omega)]
    rfl
  | succ fuel ih =>
    rw [luaFor]
    by_cases hi : i ≤ stop
    · rw [if_pos hi, List.count_cons, ih (by omega)]
      rcases eq_or_ne i j with rfl | hne
      · rw [if_neg (by omega)]
        simp [hi]
      · simp only [stride_iff hstep hne, beq_eq_false_iff_ne.mpr hne, Bool.false_eq_true, if_false,
          add_zero]
    · rw [if_neg hi, if_neg (by omega)]
      rfl

/-- Table `j` belongs to one worker. -/
theorem stride_iff_mod {numThreads t j : ℕ} (ht : t < numThreads) :
    (t + 1 ≤ j ∧ numThreads ∣ j - (t + 1)) ↔ (1 ≤ j ∧ (j - 1) % numThreads = t) := by
  constructor
  · rintro ⟨hle, hdvd⟩
    have hsub : j - 1 = t + (j - (t + 1)) := by omega
    rw [hsub, Nat.add_mod, Nat.mod_eq_zero_of_dvd hdvd, add_zero, Nat.mod_mod, Nat.mod_eq_of_lt ht]
    exact ⟨by omega, rfl⟩
  · rintro ⟨hle, rfl⟩
    have hmod := Nat.mod_le (j - 1) numThreads
    have hsub : j - ((j - 1) % numThreads + 1) = j - 1 - (j - 1) % numThreads := by omega
    exact ⟨by omega, hsub ▸ Nat.dvd_sub_mod _⟩

theorem count_prepareEvent {numThreads t : ℕ} (ht : t < numThreads) (tablesCount j : ℕ) :
    (prepareEvent numThreads tablesCount t).count j
      = if j ≤ tablesCount ∧ 1 ≤ j ∧ (j - 1) % numThreads = t then 1 else 0 := by
  rw [prepareEvent, count_luaFor (by omega) _ (by omega)]
  simp only [stride_iff_mod ht]

theorem count_insertsOf {numThreads : ℕ} (tablesCount j : ℕ) {e : Loop × LoopMove}
    (hworker : e.2.worker < numThreads) :
    (insertsOf numThreads tablesCount e).count j
      = if j ≤ tablesCount ∧ 1 ≤ j then (isEvent ((j - 1) % numThreads) e).toNat else 0 := by
  obtain ⟨s, i, a⟩ := e
  cases a with
  | attempt o =>
    cases o with
    | success now =>
      rw [insertsOf, count_prepareEvent hworker]
      by_cases hj : j ≤ tablesCount ∧ 1 ≤ j
      · simp [isEvent, hj.1, hj.2, Bool.toNat, cond_eq_ite, eq_comm]
      · rw [if_neg hj, if_neg (by tauto)]
    | restart | failure => simp [insertsOf, isEvent]
  | test | count | start | check => simp [insertsOf, isEvent]

/-- A table is created whenever its worker executes an event. -/
theorem count_createInserts {numThreads : ℕ} (tablesCount j : ℕ) {hist : List (Loop × LoopMove)}
    (hworker : ∀ e ∈ hist, e.2.worker < numThreads) :
    (createInserts numThreads tablesCount hist).count j
      = if j ≤ tablesCount ∧ 1 ≤ j then hist.countP (isEvent ((j - 1) % numThreads)) else 0 := by
  induction hist with
  | nil => simp [createInserts]
  | cons e hist ih =>
    rw [List.forall_mem_cons] at hworker
    rw [createInserts, List.flatMap_cons, List.count_append, count_insertsOf _ _ hworker.1]
    rw [createInserts] at ih
    rw [ih hworker.2, List.countP_cons]
    split_ifs <;> simp_all [add_comm]

/-- Every table is created once exactly when each worker that has tables executes one event. -/
theorem createInserts_once_iff {numThreads : ℕ} (hN : 0 < numThreads) (tablesCount : ℕ)
    {hist : List (Loop × LoopMove)} (hworker : ∀ e ∈ hist, e.2.worker < numThreads) :
    (∀ j, (createInserts numThreads tablesCount hist).count j
        = if j ≤ tablesCount ∧ 1 ≤ j then 1 else 0) ↔
      ∀ t, t < numThreads → t < tablesCount → hist.countP (isEvent t) = 1 := by
  constructor
  · intro hall t ht htable
    have hj := hall (t + 1)
    rw [count_createInserts tablesCount _ hworker, if_pos (by omega), if_pos (by omega),
      Nat.add_sub_cancel, Nat.mod_eq_of_lt ht] at hj
    exact hj
  · intro hall j
    rw [count_createInserts tablesCount _ hworker]
    split_ifs with hj
    · have hmod := Nat.mod_le (j - 1) numThreads
      exact hall _ (Nat.mod_lt _ hN) (by omega)
    · rfl

/-! ## The events of a worker -/

/-- A worker between a test passed and the end of the event. -/
def inRequest : WorkerPhase → ℕ
  | .tested | .granted | .running => 1
  | _ => 0

/-- A worker that was given the null request. -/
def atEnd : WorkerPhase → ℕ
  | .finished true | .stopped => 1
  | _ => 0

variable {cfg : LoopConfig} {s s' : Loop} {hist : List (Loop × LoopMove)} {i t : ℕ}
  {a : LoopAction}

/-- **The requests of a worker**: it executes an event for every test it passes, and is at its end
after the first it does not pass. -/
structure WorkerInv (cfg : LoopConfig) (t : ℕ) (hist : List (Loop × LoopMove)) (s : Loop) :
    Prop where
  noError : s.error = false
  passes_eq : hist.countP (isPass cfg t) = hist.countP (isEvent t) + inRequest (s.phase t)
  tests_eq : hist.countP (isTest t) = hist.countP (isPass cfg t) + atEnd (s.phase t)

theorem isPass_add_of_step (hstep : LoopStep cfg s t a s') (hcut : cutsShort a = false) :
    (isPass cfg t (s, ⟨t, a⟩)).toNat + inRequest (s.phase t)
      = (isEvent t (s, ⟨t, a⟩)).toNat + inRequest (s'.phase t) := by
  cases hstep with
  | null hphase hlimit | passed hphase hlimit | taken hphase hlimit =>
    simp [isPass, passesTest, isEvent, inRequest, hphase, hlimit]
  | failed => exact absurd hcut (by decide)
  | counted hphase | started hphase | restarted hphase | succeeded hphase | stopped hphase
  | again hphase => simp [isPass, passesTest, isEvent, inRequest, hphase]

theorem isTest_add_of_step (hstep : LoopStep cfg s t a s') (hcut : cutsShort a = false)
    (herror : s.error = false) :
    (isTest t (s, ⟨t, a⟩)).toNat + atEnd (s.phase t)
      = (isPass cfg t (s, ⟨t, a⟩)).toNat + atEnd (s'.phase t) := by
  cases hstep with
  | null hphase hlimit | passed hphase hlimit | taken hphase hlimit =>
    simp [isPass, passesTest, isTest, atEnd, hphase, hlimit]
  | failed => exact absurd hcut (by decide)
  | stopped hphase hstop =>
    obtain rfl : _ = false := hcut
    rw [herror, Bool.false_or, Bool.or_false] at hstop
    simp [isPass, passesTest, isTest, atEnd, hphase, hstop]
  | again hphase hstop =>
    rw [Bool.or_eq_false_iff, Bool.or_eq_false_iff] at hstop
    simp [isPass, passesTest, isTest, atEnd, hphase, hstop.1.2]
  | counted hphase | started hphase | restarted hphase | succeeded hphase =>
    simp [isPass, passesTest, isTest, atEnd, hphase]

theorem WorkerInv.step (h : WorkerInv cfg t hist s) (hstep : LoopStep cfg s i a s')
    (hcut : cutsShort a = false) : WorkerInv cfg t (hist ++ [(s, ⟨i, a⟩)]) s' := by
  have hpasses := h.passes_eq
  have htests := h.tests_eq
  have herror := hstep.error_eq_false hcut h.noError
  rcases eq_or_ne i t with rfl | hne
  · have hpass := isPass_add_of_step hstep hcut
    have htest := isTest_add_of_step hstep hcut h.noError
    refine ⟨herror, ?_, ?_⟩ <;> rw [countP_concat, countP_concat] <;> omega
  · have hphase := (hstep.of_ne hne.symm).1
    refine ⟨herror, ?_, ?_⟩ <;>
      simpa [countP_concat, isPass, isTest, isEvent, hne, hphase]

theorem workerInv_of_run {timer : ℕ → Timer}
    (h : Sysbench.Run (loopMove cfg) (startLoop timer) hist s)
    (hcut : ∀ e ∈ hist, cutsShort e.2.action = false) (t : ℕ) : WorkerInv cfg t hist s := by
  refine Sysbench.Run.induction (fun hist s => (∀ e ∈ hist, cutsShort e.2.action = false) →
    WorkerInv cfg t hist s) (fun _ => ⟨rfl, rfl, rfl⟩) ?_ h hcut
  rintro hist s ⟨i, a⟩ s' hind hmove hall
  rw [List.forall_mem_append, List.forall_mem_singleton] at hall
  exact (hind hall.1).step (loopStep_of_loopMove hmove).2 hall.2

/-- Before a test a worker has passed all it made. -/
theorem tests_eq_passes_of_test {timer : ℕ → Timer} {before after : List (Loop × LoopMove)}
    {e : Loop × LoopMove}
    (h : Sysbench.Run (loopMove cfg) (startLoop timer) (before ++ e :: after) s)
    (hcut : ∀ e' ∈ before ++ e :: after, cutsShort e'.2.action = false)
    (htest : isTest t e = true) :
    before.countP (isTest t) = before.countP (isPass cfg t) := by
  obtain ⟨u, hbefore, hmove, -⟩ := h.split
  have hinv := workerInv_of_run hbefore
    (fun e' he' => hcut e' (List.mem_append_left _ he')) t
  obtain ⟨-, hstep⟩ := loopStep_of_loopMove hmove
  rw [isTest, Bool.and_eq_true, decide_eq_true_eq, decide_eq_true_eq] at htest
  obtain ⟨rfl, haction⟩ := htest
  have htop : e.1.phase e.2.worker = .top := by
    rw [haction] at hstep
    cases hstep <;> assumption
  have htests := hinv.tests_eq
  rw [htop] at htests
  exact htests

variable (cfg) in
/-- Worker `t` passes its first test of the limit and no other. -/
def PassesFirst (t : ℕ) (hist : List (Loop × LoopMove)) : Prop :=
  ∀ before e after, hist = before ++ e :: after → isTest t e = true →
    (passesTest cfg e = true ↔ before.countP (isTest t) = 0)

theorem isTest_of_isPass {e : Loop × LoopMove} (h : isPass cfg t e = true) : isTest t e = true := by
  simp only [isPass, passesTest, isTest, Bool.and_eq_true] at h ⊢
  exact ⟨h.1, h.2.1⟩

/-- If only the first test is passed, no two are. -/
theorem countP_le_one (h : ∀ (before : List (Loop × LoopMove)) e after,
    hist = before ++ e :: after → isPass cfg t e = true → before.countP (isTest t) = 0) :
    hist.countP (isPass cfg t) ≤ 1 := by
  induction hist using List.reverseRecOn with
  | nil => simp
  | append_singleton hist e ih =>
    rw [countP_concat]
    rcases Bool.eq_false_or_eq_true (isPass cfg t e) with hpass | hpass
    · have hnone := h hist e [] rfl hpass
      have hle : hist.countP (isPass cfg t) ≤ hist.countP (isTest t) :=
        List.countP_mono_left fun _ _ => isTest_of_isPass
      rw [hpass, Bool.toNat_true]
      omega
    · rw [hpass, Bool.toNat_false, add_zero]
      refine ih fun before e' after hhist => h before e' (after ++ [e]) ?_
      rw [hhist, List.append_assoc, List.cons_append]

theorem isPass_eq_passesTest {e : Loop × LoopMove} (h : isTest t e = true) :
    isPass cfg t e = passesTest cfg e := by
  rw [isTest, Bool.and_eq_true] at h
  rw [isPass, h.1, Bool.true_and]

theorem passesFirst_of_one {timer : ℕ → Timer}
    (h : Sysbench.Run (loopMove cfg) (startLoop timer) hist s)
    (hcut : ∀ e ∈ hist, cutsShort e.2.action = false) (hone : hist.countP (isPass cfg t) = 1) :
    PassesFirst cfg t hist := by
  rintro before e after rfl htest
  have hbefore := tests_eq_passes_of_test h hcut htest
  rw [List.countP_append, List.countP_cons, isPass_eq_passesTest htest] at hone
  constructor
  · intro hpass
    rw [if_pos hpass] at hone
    omega
  · intro hfirst
    by_contra hnull
    rw [if_neg hnull] at hone
    -- the pass that is left comes later, and before it the worker has passed every test it made
    have hpos : 0 < after.countP (isPass cfg t) := by omega
    obtain ⟨e', he', hpass⟩ := List.countP_pos_iff.mp hpos
    obtain ⟨mid, rest, rfl⟩ := List.append_of_mem he'
    rw [← List.cons_append, ← List.append_assoc] at h
    have hmid := tests_eq_passes_of_test h (by simpa using hcut) (isTest_of_isPass hpass)
    have hle : mid.countP (isPass cfg t) ≤ mid.countP (isTest t) :=
      List.countP_mono_left fun _ _ => isTest_of_isPass
    rw [List.countP_append, List.countP_append, List.countP_cons, List.countP_cons,
      if_pos htest, isPass_eq_passesTest htest, if_neg hnull] at hmid
    omega

theorem one_of_passesFirst {timer : ℕ → Timer}
    (h : Sysbench.Run (loopMove cfg) (startLoop timer) hist s)
    (hcut : ∀ e ∈ hist, cutsShort e.2.action = false) (hpos : 0 < hist.countP (isTest t))
    (hfirst : PassesFirst cfg t hist) : hist.countP (isPass cfg t) = 1 := by
  have hle : hist.countP (isPass cfg t) ≤ 1 := countP_le_one fun before e after hhist hpass => by
    have htest := isTest_of_isPass hpass
    exact (hfirst before e after hhist htest).mp (isPass_eq_passesTest htest ▸ hpass)
  -- a test the worker does not pass is not its first, and it has passed all before it
  obtain ⟨e, he, htest⟩ := List.countP_pos_iff.mp hpos
  obtain ⟨before, after, rfl⟩ := List.append_of_mem he
  have hbefore := tests_eq_passes_of_test h hcut htest
  have hiff := hfirst before e after rfl htest
  rw [List.countP_append, List.countP_cons, isPass_eq_passesTest htest] at hle ⊢
  by_cases hpass : passesTest cfg e = true
  · rw [if_pos hpass] at hle ⊢
    omega
  · have hne := mt hiff.mpr hpass
    omega

/-- A worker that has left its loop has executed one event exactly when it passed its first test and
no other. -/
theorem countP_isEvent_eq_one_iff {timer : ℕ → Timer}
    (h : Sysbench.Run (loopMove cfg) (startLoop timer) hist s) (hran : RanOut cfg hist s)
    (ht : t < cfg.workers) : hist.countP (isEvent t) = 1 ↔ PassesFirst cfg t hist := by
  have hinv := workerInv_of_run h hran.notCut t
  have hpasses : hist.countP (isPass cfg t) = hist.countP (isEvent t) := by
    simpa [hran.stopped t ht, inRequest] using hinv.passes_eq
  have htests : hist.countP (isTest t) = hist.countP (isPass cfg t) + 1 := by
    simpa [hran.stopped t ht, atEnd] using hinv.tests_eq
  rw [← hpasses]
  exact ⟨passesFirst_of_one h hran.notCut, one_of_passesFirst h hran.notCut (by omega)⟩

/-- **The tables of a run.**  Without database errors, `create_insert` is called once for each table
and for nothing else exactly when every worker that has tables passes the test of the limit the
first time it makes it, and not again. -/
theorem createInserts_iff {numThreads : ℕ} (hN : 0 < numThreads) (tablesCount : ℕ)
    (timer : ℕ → Timer) {hist : List (Loop × LoopMove)} {s : Loop}
    (h : Sysbench.Run (loopMove (prepareConfig numThreads)) (startLoop timer) hist s)
    (hran : PreparedWithoutErrors (prepareConfig numThreads) hist s) :
    (∀ j, (createInserts numThreads tablesCount hist).count j
        = if j ≤ tablesCount ∧ 1 ≤ j then 1 else 0) ↔
      ∀ t, t < numThreads → t < tablesCount → PassesFirst (prepareConfig numThreads) t hist := by
  have hworker : ∀ e ∈ hist, e.2.worker < numThreads := fun e he => by
    obtain ⟨before, after, rfl⟩ := List.append_of_mem he
    obtain ⟨u, -, hmove, -⟩ := h.split
    exact (loopStep_of_loopMove hmove).1
  rw [createInserts_once_iff hN tablesCount hworker]
  exact forall₂_congr fun t ht => imp_congr_right fun _ =>
    countP_isEvent_eq_one_iff h hran.toRanOut ht

/-- The request that worker `i` takes, up to the end of the loop body. -/
def onePrepare (i : ℕ) : List LoopMove :=
  [⟨i, .test⟩, ⟨i, .count⟩, ⟨i, .start 0⟩, ⟨i, .attempt (.success 1)⟩, ⟨i, .check false⟩]

/-- The test that ends the loop of worker `i`. -/
def leave (i : ℕ) : List LoopMove := [⟨i, .test⟩, ⟨i, .check false⟩]

/-- One request for each of two workers. -/
def oneEach : List LoopMove :=
  ((onePrepare 0).append (onePrepare 1)).append ((leave 0).append (leave 1))

/-- Both requests for worker 0. -/
def bothForOne : List LoopMove :=
  ((onePrepare 0).append (onePrepare 0)).append ((leave 0).append (leave 1))

theorem createInserts_iff_oneEach : ∃ hist s,
    Sysbench.Run (loopMove (prepareConfig 2)) (startLoop fun _ => sbTimerInit blankTimer) hist s ∧
      hist.map Prod.snd = oneEach ∧ createInserts 2 3 hist = [1, 3, 2] ∧
      ∀ t, t < 2 → t < 3 → PassesFirst (prepareConfig 2) t hist := by
  have h : Sysbench.Run.play (loopMove (prepareConfig 2))
      (startLoop fun _ => sbTimerInit blankTimer) oneEach = some (_, _) := rfl
  have hrun := Sysbench.Run.of_play h
  refine ⟨_, _, hrun, rfl, rfl, (createInserts_iff (by decide) 3 _ hrun
    ⟨⟨by decide, by decide⟩, by decide⟩).mp fun j => ?_⟩
  change [1, 3, 2].count j = _
  rcases Nat.lt_or_ge j 4 with hj | hj
  · interval_cases j <;> rfl
  · rw [if_neg (by omega), List.count_eq_zero_of_not_mem]
    simp only [List.mem_cons, List.not_mem_nil, or_false]
    omega

/-- Worker 0 comes back before worker 1 has asked: table 1 is created twice, and table 2 never. -/
theorem createInserts_twice : ∃ hist s,
    Sysbench.Run (loopMove (prepareConfig 2)) (startLoop fun _ => sbTimerInit blankTimer) hist s ∧
      hist.map Prod.snd = bothForOne ∧ PreparedWithoutErrors (prepareConfig 2) hist s ∧
      createInserts 2 2 hist = [1, 1] := by
  have h : Sysbench.Run.play (loopMove (prepareConfig 2))
      (startLoop fun _ => sbTimerInit blankTimer) bothForOne = some (_, _) := rfl
  exact ⟨_, _, Sysbench.Run.of_play h, rfl, ⟨⟨by decide, by decide⟩, by decide⟩, rfl⟩

end Sysbench.Scripting
