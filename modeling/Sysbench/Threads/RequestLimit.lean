import Sysbench.Threads.WorkerLoop

/-!
# Threads/RequestLimit — how many requests a run hands out

`--max-requests` is kept by a test and an increment.  `threads_get_request` holds its mutex over
both; in `sb_lua_get_request` and `cpu_get_request` other workers come in between, and each of them
may pass the test on the same value of the counter.

A request is **under way** while its worker is between the two.  Every test that passes ends in a
request handed out, so what counts is the tests (`LimitInv`): a run hands out as many requests as
the limit says exactly when none is passed while the requests counted and those under way already
make up the limit (`handedOut_eq_iff`).
-/

namespace Sysbench.Threads

open Logging

variable (cfg : LoopConfig)

/-- The move is a test of the limit, and it passes. -/
def passesTest (e : Loop × LoopMove) : Bool := e.2.action = .test && !limitReached cfg e.1

/-- The move hands out a request. -/
def handsOut (e : Loop × LoopMove) : Bool :=
  match e.2.action with
  | .test => cfg.locked && !limitReached cfg e.1
  | .count => true
  | _ => false

/-- The requests handed out in a run. -/
def handedOut (hist : List (Loop × LoopMove)) : ℕ := hist.countP (handsOut cfg)

/-- A worker between the test and the increment. -/
def underWay : WorkerPhase → ℕ
  | .tested => 1
  | _ => 0

/-- The requests under way. -/
def requestsUnderWay (s : Loop) : ℕ := ∑ i ∈ Finset.range cfg.workers, underWay (s.phase i)

/-- The test is passed only while there is room for one more request, those under way included. -/
def roomFor (e : Loop × LoopMove) : Prop :=
  passesTest cfg e = true → e.1.counter + requestsUnderWay cfg e.1 < cfg.maxRequests

/-- The move ends the loop of its worker before the limit does: `event()` fails, or the time is
over. -/
def cutsShort : LoopAction → Bool
  | .attempt .failure => true
  | .check timeUp => timeUp
  | _ => false

/-- All workers have left their loops, none of them before the limit was reached. -/
structure RanOut (hist : List (Loop × LoopMove)) (s : Loop) : Prop where
  stopped : ∀ i < cfg.workers, s.phase i = .stopped
  notCut : ∀ e ∈ hist, cutsShort e.2.action = false

variable {cfg} {s s' : Loop} {hist : List (Loop × LoopMove)} {i : ℕ} {a : LoopAction}

/-- A test passed is a request under way or handed out. -/
theorem LoopStep.passesTest_add (hstep : LoopStep cfg s i a s') :
    (passesTest cfg (s, ⟨i, a⟩)).toNat + underWay (s.phase i)
      = (handsOut cfg (s, ⟨i, a⟩)).toNat + underWay (s'.phase i) := by
  cases hstep with
  | null hphase hlimit => simp [passesTest, handsOut, underWay, hphase, hlimit]
  | passed hphase hlimit hlocked | taken hphase hlimit hlocked =>
    simp [passesTest, handsOut, underWay, hphase, hlimit, hlocked]
  | counted hphase | started hphase | restarted hphase | succeeded hphase | failed hphase
  | stopped hphase | again hphase => simp [passesTest, handsOut, underWay, hphase]

theorem LoopStep.requestsUnderWay_add (hstep : LoopStep cfg s i a s') (hi : i < cfg.workers) :
    (passesTest cfg (s, ⟨i, a⟩)).toNat + requestsUnderWay cfg s
      = (handsOut cfg (s, ⟨i, a⟩)).toNat + requestsUnderWay cfg s' := by
  have hsame : ∀ j, j ≠ i → underWay (s'.phase j) = underWay (s.phase j) := fun j hj => by
    rw [(hstep.of_ne hj).1]
  have hsum : requestsUnderWay cfg s' + underWay (s.phase i)
      = requestsUnderWay cfg s + underWay (s'.phase i) :=
    sum_add_eq_of_ne (Finset.mem_range.mpr hi) hsame
  have hown := hstep.passesTest_add
  omega

theorem LoopStep.counter_eq (hstep : LoopStep cfg s i a s') (hcounter : s.counter < 2 ^ 32) :
    s'.counter = (s.counter + (handsOut cfg (s, ⟨i, a⟩)).toNat) % 2 ^ 32 := by
  have hsame : s.counter % 2 ^ 32 = s.counter := Nat.mod_eq_of_lt hcounter
  cases hstep with
  | taken hphase hlimit hlocked => simp [handsOut, hlimit, hlocked, Loop.countRequest]
  | counted => simp [handsOut, Loop.countRequest]
  | null hphase hlimit => simpa [handsOut, hlimit] using hsame.symm
  | passed hphase hlimit hlocked => simpa [handsOut, hlocked] using hsame.symm
  | started | restarted | succeeded | failed | stopped | again =>
    simpa [handsOut] using hsame.symm

/-- While nothing cuts the run short, a worker is at its end only because the limit was reached. -/
theorem LoopStep.of_ended (hstep : LoopStep cfg s i a s') (hcut : cutsShort a = false)
    (herror : s.error = false) (hend : s'.phase i = .finished true ∨ s'.phase i = .stopped) :
    limitReached cfg s = true ∨ s.phase i = .finished true := by
  cases hstep with
  | null hphase hlimit => exact .inl hlimit
  | stopped hphase hstop =>
    obtain rfl : _ = false := hcut
    rw [herror, Bool.false_or, Bool.or_false] at hstop
    exact .inr (hstop ▸ hphase)
  | restarted hphase => simp [hphase] at hend
  | failed => exact absurd hcut (by decide)
  | passed | taken | counted | started | succeeded | again => simp at hend

theorem LoopStep.error_eq_false (hstep : LoopStep cfg s i a s') (hcut : cutsShort a = false)
    (herror : s.error = false) : s'.error = false := by
  cases hstep with
  | failed => exact absurd hcut (by decide)
  | null | passed | taken | counted | started | restarted | succeeded | stopped | again =>
    exact herror

variable (cfg) in
/-- **The limit along a run**: every test passed is a request handed out or under way; while there
was room for all of them the counter is right, and a worker has come to its end only at the limit;
and once there was no room for one, there are too many. -/
structure LimitInv (hist : List (Loop × LoopMove)) (s : Loop) : Prop where
  noError : s.error = false
  passed_eq : hist.countP (passesTest cfg) = handedOut cfg hist + requestsUnderWay cfg s
  counter_eq : (∀ e ∈ hist, roomFor cfg e) → s.counter = handedOut cfg hist
  passed_le : (∀ e ∈ hist, roomFor cfg e) → hist.countP (passesTest cfg) ≤ cfg.maxRequests
  ended : (∀ e ∈ hist, roomFor cfg e) →
    ∀ i, s.phase i = .finished true ∨ s.phase i = .stopped → cfg.maxRequests ≤ handedOut cfg hist
  exceeded : (¬ ∀ e ∈ hist, roomFor cfg e) → cfg.maxRequests < hist.countP (passesTest cfg)

theorem limitInv_nil (timer : ℕ → Timer) : LimitInv cfg [] (startLoop timer) where
  noError := rfl
  passed_eq := by simp [handedOut, requestsUnderWay, startLoop, underWay]
  counter_eq := fun _ => rfl
  passed_le := fun _ => Nat.zero_le _
  ended := fun _ i h => absurd h (by simp [startLoop])
  exceeded := fun h => absurd (by simp) h

theorem le_counter_of_limitReached (h : limitReached cfg s = true) :
    cfg.maxRequests ≤ s.counter := by
  simp only [limitReached, Bool.and_eq_true, decide_eq_true_eq] at h
  exact h.2

/-- Where there is room for a test that passes, there still are not too many. -/
theorem LimitInv.passed_add_le (h : LimitInv cfg hist s) (hall : ∀ e ∈ hist, roomFor cfg e)
    {m : LoopMove} (hroom : roomFor cfg (s, m)) :
    hist.countP (passesTest cfg) + (passesTest cfg (s, m)).toNat ≤ cfg.maxRequests := by
  have hpassed := h.passed_eq
  have hcounter := h.counter_eq hall
  have hold := h.passed_le hall
  rcases Bool.eq_false_or_eq_true (passesTest cfg (s, m)) with hpass | hpass
  · have hfree : s.counter + requestsUnderWay cfg s < cfg.maxRequests := hroom hpass
    rw [hpass, Bool.toNat_true]
    omega
  · rw [hpass, Bool.toNat_false]
    exact hold

/-- Where there is none, there are. -/
theorem LimitInv.lt_passed_add (h : LimitInv cfg hist s) (hall : ∀ e ∈ hist, roomFor cfg e)
    {m : LoopMove} (hroom : ¬ roomFor cfg (s, m)) :
    cfg.maxRequests < hist.countP (passesTest cfg) + (passesTest cfg (s, m)).toNat := by
  have hpassed := h.passed_eq
  have hcounter := h.counter_eq hall
  obtain ⟨hpass, hfull : ¬ s.counter + requestsUnderWay cfg s < cfg.maxRequests⟩ :=
    Classical.not_imp.mp hroom
  rw [hpass, Bool.toNat_true]
  omega

theorem LimitInv.step (hM : cfg.maxRequests < 2 ^ 32) (h : LimitInv cfg hist s)
    (hi : i < cfg.workers) (hstep : LoopStep cfg s i a s') (hcut : cutsShort a = false) :
    LimitInv cfg (hist ++ [(s, ⟨i, a⟩)]) s' := by
  have hhanded : handedOut cfg (hist ++ [(s, ⟨i, a⟩)])
      = handedOut cfg hist + (handsOut cfg (s, ⟨i, a⟩)).toNat := countP_concat _ _ _
  have hroom : (∀ e ∈ hist ++ [(s, ⟨i, a⟩)], roomFor cfg e)
      ↔ (∀ e ∈ hist, roomFor cfg e) ∧ roomFor cfg (s, ⟨i, a⟩) := by
    rw [List.forall_mem_append, List.forall_mem_singleton]
  have hunder := hstep.requestsUnderWay_add hi
  have hpassed := h.passed_eq
  refine ⟨hstep.error_eq_false hcut h.noError, ?_, ?_, ?_, ?_, ?_⟩
  · rw [countP_concat, hhanded]
    omega
  · rw [hroom, hhanded]
    rintro ⟨hall, hlast⟩
    have hcounter := h.counter_eq hall
    have hle := h.passed_add_le hall hlast
    rw [hstep.counter_eq (by omega), hcounter, Nat.mod_eq_of_lt (by omega)]
  · rw [hroom, countP_concat]
    rintro ⟨hall, hlast⟩
    exact h.passed_add_le hall hlast
  · rw [hroom, hhanded]
    rintro ⟨hall, -⟩ j hend
    refine Nat.le_add_right_of_le ?_
    rcases eq_or_ne j i with rfl | hne
    · rcases hstep.of_ended hcut h.noError hend with hlimit | hfinished
      · exact h.counter_eq hall ▸ le_counter_of_limitReached hlimit
      · exact h.ended hall j (.inl hfinished)
    · rw [(hstep.of_ne hne).1] at hend
      exact h.ended hall j hend
  · rw [hroom, countP_concat, not_and]
    intro hnot
    by_cases hall : ∀ e ∈ hist, roomFor cfg e
    · exact h.lt_passed_add hall (hnot hall)
    · exact Nat.lt_add_right _ (h.exceeded hall)

theorem limitInv_of_run (hM : cfg.maxRequests < 2 ^ 32) {timer : ℕ → Timer}
    (h : Run (loopMove cfg) (startLoop timer) hist s)
    (hcut : ∀ e ∈ hist, cutsShort e.2.action = false) : LimitInv cfg hist s := by
  refine Run.induction (fun hist s => (∀ e ∈ hist, cutsShort e.2.action = false) →
    LimitInv cfg hist s) (fun _ => limitInv_nil timer) ?_ h hcut
  rintro hist s ⟨i, a⟩ s' hind hmove hall
  rw [List.forall_mem_append, List.forall_mem_singleton] at hall
  obtain ⟨hi, hstep⟩ := loopStep_of_loopMove hmove
  exact (hind hall.1).step hM hi hstep hall.2

theorem requestsUnderWay_eq_zero (h : ∀ i < cfg.workers, s.phase i ≠ .tested) :
    requestsUnderWay cfg s = 0 := Finset.sum_eq_zero fun i hi => by
  have hne := h i (Finset.mem_range.mp hi)
  cases hphase : s.phase i with
  | tested => exact absurd hphase hne
  | top | granted | running | finished | stopped => rfl

/-- In the end every test passed is a request handed out. -/
theorem RanOut.passed_eq (hran : RanOut cfg hist s) (hinv : LimitInv cfg hist s) :
    hist.countP (passesTest cfg) = handedOut cfg hist := by
  have hnone : requestsUnderWay cfg s = 0 := requestsUnderWay_eq_zero fun i hi => by
    rw [hran.stopped i hi]
    exact WorkerPhase.noConfusion
  rw [hinv.passed_eq, hnone, add_zero]

theorem RanOut.handedOut_eq (hran : RanOut cfg hist s) (hinv : LimitInv cfg hist s)
    (hworkers : 0 < cfg.workers) (hroom : ∀ e ∈ hist, roomFor cfg e) :
    handedOut cfg hist = cfg.maxRequests :=
  (hran.passed_eq hinv ▸ hinv.passed_le hroom).antisymm
    (hinv.ended hroom 0 (.inr (hran.stopped 0 hworkers)))

/-! ## Under the mutex -/

theorem LoopStep.ne_tested (hlocked : cfg.locked = true) (hstep : LoopStep cfg s i a s')
    (h : s.phase i ≠ .tested) : s'.phase i ≠ .tested := by
  cases hstep with
  | passed _ _ hunlocked => exact absurd (hlocked.symm.trans hunlocked) (by decide)
  | restarted => exact h
  | null | taken | counted | started | succeeded | failed | stopped | again => simp

/-- With the mutex no request is ever under way. -/
theorem ne_tested_of_run (hlocked : cfg.locked = true) {timer : ℕ → Timer}
    (h : Run (loopMove cfg) (startLoop timer) hist s) : ∀ i, s.phase i ≠ .tested := by
  refine Run.induction (fun _ s => ∀ i, s.phase i ≠ .tested) (by simp [startLoop]) ?_ h
  rintro hist s ⟨i, a⟩ s' hI hmove j
  obtain ⟨-, hstep⟩ := loopStep_of_loopMove hmove
  rcases eq_or_ne j i with rfl | hne
  · exact hstep.ne_tested hlocked (hI j)
  · rw [(hstep.of_ne hne).1]
    exact hI j

theorem counter_lt_of_passesTest {e : Loop × LoopMove} (hpos : 0 < cfg.maxRequests)
    (hpass : passesTest cfg e = true) : e.1.counter < cfg.maxRequests := by
  simp only [passesTest, limitReached, Bool.and_eq_true, Bool.not_eq_true', Bool.and_eq_false_iff,
    decide_eq_false_iff_not, ne_eq, not_not, not_le] at hpass
  exact hpass.2.resolve_left hpos.ne'

/-- **`threads_get_request` keeps the limit.** -/
theorem handedOut_of_locked (hlocked : cfg.locked = true) (hworkers : 0 < cfg.workers)
    (hpos : 0 < cfg.maxRequests) (hM : cfg.maxRequests < 2 ^ 32) {timer : ℕ → Timer}
    (h : Run (loopMove cfg) (startLoop timer) hist s) (hran : RanOut cfg hist s) :
    handedOut cfg hist = cfg.maxRequests := by
  refine hran.handedOut_eq (limitInv_of_run hM h hran.notCut) hworkers fun e he hpass => ?_
  obtain ⟨before, after, rfl⟩ := List.append_of_mem he
  obtain ⟨-, hbefore, -, -⟩ := h.split
  rw [requestsUnderWay_eq_zero fun i _ => ne_tested_of_run hlocked hbefore i, add_zero]
  exact counter_lt_of_passesTest hpos hpass

/-! ## With a test and an increment -/

/-- **The requests of a run.**  A run that nothing cuts short hands out as many requests as the
limit says exactly when no worker passes the test while the requests counted and those under way
already make up the limit. -/
theorem handedOut_eq_iff (cfg : LoopConfig) (hworkers : 0 < cfg.workers)
    (hM : cfg.maxRequests < 2 ^ 32) (timer : ℕ → Timer) {hist : List (Loop × LoopMove)} {s : Loop}
    (h : Run (loopMove cfg) (startLoop timer) hist s) (hran : RanOut cfg hist s) :
    handedOut cfg hist = cfg.maxRequests ↔ ∀ e ∈ hist, roomFor cfg e := by
  have hinv := limitInv_of_run hM h hran.notCut
  refine ⟨fun heq => ?_, hran.handedOut_eq hinv hworkers⟩
  by_contra hroom
  have hexceeded := hinv.exceeded hroom
  rw [hran.passed_eq hinv, heq] at hexceeded
  exact lt_irrefl _ hexceeded

/-- What is left of a worker's loop once it has its request, and the test that ends it. -/
def lastRequest (i : ℕ) : List LoopMove :=
  [⟨i, .start 0⟩, ⟨i, .attempt (.success 1)⟩, ⟨i, .check false⟩, ⟨i, .test⟩, ⟨i, .check false⟩]

/-- Two workers of a cpu test with a limit of `m` requests. -/
def twoCpuWorkers (m : ℕ) : LoopConfig := ⟨2, m, false⟩

/-- One request for each of two workers, in turn. -/
def inTurn : List LoopMove :=
  [⟨0, .test⟩, ⟨0, .count⟩, ⟨1, .test⟩, ⟨1, .count⟩].append ((lastRequest 0).append (lastRequest 1))

/-- Two workers test the limit before either counts its request. -/
def together : List LoopMove :=
  [⟨0, .test⟩, ⟨1, .test⟩, ⟨0, .count⟩, ⟨1, .count⟩].append ((lastRequest 0).append (lastRequest 1))

theorem handedOut_eq_iff_inTurn : ∃ hist s,
    Run (loopMove (twoCpuWorkers 2)) (startLoop fun _ => sbTimerInit blankTimer) hist s ∧
      hist.map Prod.snd = inTurn ∧ handedOut (twoCpuWorkers 2) hist = 2 ∧
      ∀ e ∈ hist, roomFor (twoCpuWorkers 2) e := by
  have h : Run.play (loopMove (twoCpuWorkers 2)) (startLoop fun _ => sbTimerInit blankTimer) inTurn
      = some (_, _) := rfl
  have hrun := Run.of_play h
  have hroom := (handedOut_eq_iff (twoCpuWorkers 2) (by decide) (by decide) _ hrun
    ⟨by decide, by decide⟩).mp rfl
  exact ⟨_, _, hrun, rfl, rfl, hroom⟩

/-- A limit of one request, and two are handed out. -/
theorem two_handedOut : ∃ hist s,
    Run (loopMove (twoCpuWorkers 1)) (startLoop fun _ => sbTimerInit blankTimer) hist s ∧
      hist.map Prod.snd = together ∧ RanOut (twoCpuWorkers 1) hist s ∧
      handedOut (twoCpuWorkers 1) hist = 2 := by
  have h : Run.play (loopMove (twoCpuWorkers 1)) (startLoop fun _ => sbTimerInit blankTimer)
      together = some (_, _) := rfl
  exact ⟨_, _, Run.of_play h, rfl, ⟨by decide, by decide⟩, rfl⟩

end Sysbench.Threads
