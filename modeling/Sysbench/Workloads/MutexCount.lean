import Sysbench.Workloads.LockTests

/-!
# Workloads/MutexCount — the variable the `mutex` test increments

Each turn of a request draws one of the `mutex_num` mutexes, and increments `global_var` holding it.
An increment is a load and a store.  A worker is kept out of another's increment only where both
drew the same mutex, so the variable counts the increments exactly when there is one mutex to draw,
or one worker to draw it.
-/

namespace Sysbench.Workloads

/-! ## The machine -/

/-- Where a worker is in a turn of the loop. -/
inductive TurnPc
  | drawn
  | locked
  | loaded (v : ℕ)
  | stored
  deriving DecidableEq

/-- A worker: the mutexes of the turns to come, and where it is in the first of them. -/
structure CountWorker where
  todo : List ℕ
  pc : TurnPc

/-- `global_var`, who holds each mutex, and the workers. -/
structure CountRun where
  globalVar : ℕ
  holder : ℕ → Option ℕ
  worker : ℕ → CountWorker

/-- Before the first turn; `todo w` are the mutexes worker `w` is going to draw. -/
def startCount (todo : ℕ → List ℕ) : CountRun := ⟨0, fun _ => none, fun w => ⟨todo w, .drawn⟩⟩

/-- Worker `w` goes on to `pc`. -/
def CountRun.goto (s : CountRun) (w : ℕ) (pc : TurnPc) : ℕ → CountWorker :=
  Function.update s.worker w { s.worker w with pc }

@[simp] theorem CountRun.goto_todo (s : CountRun) (w u : ℕ) (pc : TurnPc) :
    (s.goto w pc u).todo = (s.worker u).todo := by
  rcases eq_or_ne u w with rfl | hne
  · simp [goto]
  · simp [goto, hne]

theorem CountRun.goto_pc (s : CountRun) (w u : ℕ) (pc : TurnPc) :
    (s.goto w pc u).pc = if u = w then pc else (s.worker u).pc := by
  rcases eq_or_ne u w with rfl | hne
  · simp [goto]
  · simp [goto, hne]

/-- One step of worker `w`, one of `n`: it locks, loads, stores or unlocks. -/
def countMove (n : ℕ) (s : CountRun) (w : ℕ) : Option CountRun :=
  if w < n then
    match (s.worker w).todo with
    | [] => none
    | m :: rest =>
      match (s.worker w).pc with
      | .drawn =>
        if s.holder m = none then
          some { s with
            holder := Function.update s.holder m (some w)
            worker := s.goto w .locked }
        else none
      | .locked => some { s with worker := s.goto w (.loaded s.globalVar) }
      | .loaded v => some { s with globalVar := (v + 1) % 2 ^ 32, worker := s.goto w .stored }
      | .stored =>
        some { s with
          holder := Function.update s.holder m none
          worker := Function.update s.worker w ⟨rest, .drawn⟩ }
  else none

/-- The step is the store of an increment. -/
def increments (e : CountRun × ℕ) : Bool :=
  match (e.1.worker e.2).pc with
  | .loaded _ => true
  | _ => false

/-- The workers of the test: each draws as `mutex_execute_request` does for some values of
`rand()`. -/
def Draws (cfg : MutexConfig) (n : ℕ) (todo : ℕ → List ℕ) : Prop :=
  ∀ w < n, ∃ rand, mutexExecuteRequest cfg (mutexGetRequest cfg) rand = .ok (todo w)

/-- **No update is lost**: in every run of `n` workers, at every time, the variable is the number of
increments, as far as its 32 bits go. -/
def CountsExactly (cfg : MutexConfig) (n : ℕ) : Prop :=
  ∀ todo, Draws cfg n todo → ∀ hist s, Run (countMove n) (startCount todo) hist s →
    s.globalVar = hist.countP increments % 2 ^ 32

/-! ## What a step does -/

section Steps

variable {n : ℕ} {s s' : CountRun} {w : ℕ}

/-- **What a step can do.** -/
inductive CountStep (s : CountRun) (w m : ℕ) (rest : List ℕ) : CountRun → Prop
  | lock : (s.worker w).pc = .drawn → s.holder m = none →
      CountStep s w m rest { s with
        holder := Function.update s.holder m (some w)
        worker := s.goto w .locked }
  | load : (s.worker w).pc = .locked →
      CountStep s w m rest { s with worker := s.goto w (.loaded s.globalVar) }
  | store {v : ℕ} : (s.worker w).pc = .loaded v →
      CountStep s w m rest { s with
        globalVar := (v + 1) % 2 ^ 32
        worker := s.goto w .stored }
  | unlock : (s.worker w).pc = .stored →
      CountStep s w m rest { s with
        holder := Function.update s.holder m none
        worker := Function.update s.worker w ⟨rest, .drawn⟩ }

theorem countStep_of_countMove (h : countMove n s w = some s') :
    w < n ∧ ∃ m rest, (s.worker w).todo = m :: rest ∧ CountStep s w m rest s' := by
  unfold countMove at h
  split at h
  next hw =>
    refine ⟨hw, ?_⟩
    split at h
    next => cases h
    next m rest htodo =>
      refine ⟨m, rest, htodo, ?_⟩
      split at h
      next hpc =>
        split at h
        next hfree => exact Option.some.inj h ▸ .lock hpc hfree
        next => cases h
      next hpc => exact Option.some.inj h ▸ .load hpc
      next v hpc => exact Option.some.inj h ▸ .store hpc
      next hpc => exact Option.some.inj h ▸ .unlock hpc
  next => cases h

/-! ## One worker at a time -/

/-- **One worker at a time**: two workers that have turns to come draw the same mutexes, a worker in
its increment holds the mutex it drew, and what it has loaded is still there. -/
structure Alone (n : ℕ) (s : CountRun) : Prop where
  contend : ∀ w < n, ∀ v < n, ∀ m ∈ (s.worker w).todo, ∀ m' ∈ (s.worker v).todo, m = m' ∨ w = v
  holds : ∀ w, (s.worker w).pc ≠ .drawn → w < n ∧
    ∃ m rest, (s.worker w).todo = m :: rest ∧ s.holder m = some w
  current : ∀ w v, (s.worker w).pc = .loaded v → v = s.globalVar

theorem Alone.eq_of_inside (h : Alone n s) {v : ℕ} (hw : (s.worker w).pc ≠ .drawn)
    (hv : (s.worker v).pc ≠ .drawn) : w = v := by
  obtain ⟨hwn, m, rest, hm, hholder⟩ := h.holds w hw
  obtain ⟨hvn, m', rest', hm', hholder'⟩ := h.holds v hv
  rcases h.contend w hwn v hvn m (by simp [hm]) m' (by simp [hm']) with rfl | rfl
  · exact Option.some.inj (hholder.symm.trans hholder')
  · rfl

theorem alone_startCount {todo : ℕ → List ℕ}
    (h : ∀ w < n, ∀ v < n, ∀ m ∈ todo w, ∀ m' ∈ todo v, m = m' ∨ w = v) :
    Alone n (startCount todo) where
  contend := h
  holds w hw := absurd rfl hw
  current w v hv := by simp [startCount] at hv

/-- The turns to come get fewer. -/
theorem CountStep.todo_subset {m : ℕ} {rest : List ℕ} (htodo : (s.worker w).todo = m :: rest)
    (hs : CountStep s w m rest s') (u : ℕ) : (s'.worker u).todo ⊆ (s.worker u).todo := by
  cases hs with
  | lock | load | store => simp
  | unlock =>
    dsimp only
    rcases eq_or_ne u w with rfl | hne
    · simp [htodo]
    · simp [hne]

/-- **A mutex stays with the worker in its increment.** -/
theorem Alone.holds_step (hA : Alone n s) (hw : w < n) {m : ℕ} {rest : List ℕ}
    (htodo : (s.worker w).todo = m :: rest) (hs : CountStep s w m rest s') (u : ℕ)
    (hu : (s'.worker u).pc ≠ .drawn) :
    u < n ∧ ∃ m rest, (s'.worker u).todo = m :: rest ∧ s'.holder m = some u := by
  cases hs with
  | lock hpc hfree =>
    simp only [CountRun.goto_pc, CountRun.goto_todo] at hu ⊢
    split_ifs at hu with huw
    · subst huw
      exact ⟨hw, m, rest, htodo, Function.update_self ..⟩
    · obtain ⟨hun, m', rest', hm', hholder⟩ := hA.holds u hu
      have hne : m' ≠ m := by
        rintro rfl
        simp [hfree] at hholder
      exact ⟨hun, m', rest', hm', (Function.update_of_ne hne _ _).trans hholder⟩
  | load hpc | store hpc =>
    simp only [CountRun.goto_pc, CountRun.goto_todo] at hu ⊢
    split_ifs at hu with huw
    · subst huw
      exact hA.holds u (by simp [hpc])
    · exact hA.holds u hu
  | unlock hpc =>
    dsimp only at hu ⊢
    rcases eq_or_ne u w with rfl | hne
    · simp at hu
    · rw [Function.update_of_ne hne] at hu ⊢
      obtain ⟨hun, m', rest', hm', hholder⟩ := hA.holds u hu
      obtain ⟨-, m'', rest'', hm'', hholder'⟩ := hA.holds w (by simp [hpc])
      obtain ⟨rfl, -⟩ := List.cons.inj (htodo.symm.trans hm'')
      have hne' : m' ≠ m := by
        rintro rfl
        exact hne (Option.some.inj (hholder.symm.trans hholder'))
      exact ⟨hun, m', rest', hm', (Function.update_of_ne hne' _ _).trans hholder⟩

/-- **What was loaded is still there**, since no other worker can store. -/
theorem Alone.current_step (hA : Alone n s) {m : ℕ} {rest : List ℕ}
    (hs : CountStep s w m rest s') (u v : ℕ) (hu : (s'.worker u).pc = .loaded v) :
    v = s'.globalVar := by
  cases hs with
  | lock hpc hfree =>
    simp only [CountRun.goto_pc] at hu
    split_ifs at hu
    exact hA.current u v hu
  | load hpc =>
    simp only [CountRun.goto_pc] at hu
    split_ifs at hu
    · exact (TurnPc.loaded.inj hu).symm
    · exact hA.current u v hu
  | store hpc =>
    simp only [CountRun.goto_pc] at hu
    split_ifs at hu with huw
    exact absurd (hA.eq_of_inside (by simp [hu]) (by simp [hpc])) huw
  | unlock hpc =>
    dsimp only at hu
    rcases eq_or_ne u w with rfl | hne
    · simp at hu
    · rw [Function.update_of_ne hne] at hu
      exact hA.current u v hu

/-- **Each step leaves one worker at a time.** -/
theorem Alone.step (hA : Alone n s) (h : countMove n s w = some s') : Alone n s' := by
  obtain ⟨hw, m, rest, htodo, hs⟩ := countStep_of_countMove h
  refine ⟨fun u hu v hv k hk k' hk' => ?_, hA.holds_step hw htodo hs, hA.current_step hs⟩
  exact hA.contend u hu v hv k (hs.todo_subset htodo u hk) k' (hs.todo_subset htodo v hk')

/-- One step counts what it increments. -/
theorem Alone.globalVar_step (hA : Alone n s) (h : countMove n s w = some s') :
    s'.globalVar = if increments (s, w) then (s.globalVar + 1) % 2 ^ 32 else s.globalVar := by
  obtain ⟨-, m, rest, -, hs⟩ := countStep_of_countMove h
  cases hs with
  | lock hpc | load hpc | unlock hpc => simp [increments, hpc]
  | store hpc => simp [increments, hpc, hA.current w _ hpc]

/-- **One worker at a time loses no update.** -/
theorem globalVar_of_contend {todo : ℕ → List ℕ} {hist : List (CountRun × ℕ)}
    (htodo : ∀ w < n, ∀ v < n, ∀ m ∈ todo w, ∀ m' ∈ todo v, m = m' ∨ w = v)
    (h : Run (countMove n) (startCount todo) hist s) :
    s.globalVar = hist.countP increments % 2 ^ 32 := by
  refine (h.induction (fun hist s => Alone n s ∧ s.globalVar = hist.countP increments % 2 ^ 32)
    ⟨alone_startCount htodo, rfl⟩ ?_).2
  intro hist s w s' ⟨hA, hcount⟩ hs
  refine ⟨hA.step hs, ?_⟩
  rw [hA.globalVar_step hs, countP_concat, hcount]
  cases increments (s, w) <;> simp

end Steps

/-! ## Two mutexes -/

section Lost

variable {cfg : MutexConfig} {n : ℕ}

/-- Where `rand()` always answers `k`, all turns draw one mutex. -/
theorem eq_of_mem_mutexLoop {mutexNum k : ℕ} {fuel nlocks turn : ℕ} {indices : List ℕ}
    (h : mutexLoop mutexNum (fun _ => k) fuel nlocks turn = .ok indices) :
    ∀ i ∈ indices, i = k % mutexNum := by
  induction fuel generalizing nlocks turn indices with
  | zero => cases h
  | succ fuel ih =>
    rw [mutexLoop] at h
    split_ifs at h
    · cases hrest : mutexLoop mutexNum (fun _ => k) fuel (toU32 (nlocks - 1)) (turn + 1) with
      | error f =>
        rw [hrest] at h
        cases h
      | ok rest =>
        rw [hrest] at h
        obtain rfl := Except.ok.inj h
        exact List.forall_mem_cons.mpr ⟨rfl, ih hrest⟩
    · obtain rfl := Except.ok.inj h
      simp

/-- A worker may draw any of the mutexes first. -/
theorem exists_draws (hnum : 0 < cfg.mutexNum) (hlocks : cfg.mutexLocks < 2 ^ 32) {k : ℕ}
    (hk : k < cfg.mutexNum) :
    ∃ rest, mutexExecuteRequest cfg (mutexGetRequest cfg) (fun _ => k) = .ok (k :: rest) := by
  obtain ⟨indices, hloop, hlen, -⟩ := mutexLoop_eq hnum (fun _ => k) hlocks
  cases indices with
  | nil =>
    simp only [List.length_nil] at hlen
    split_ifs at hlen
    omega
  | cons i rest =>
    have hi := eq_of_mem_mutexLoop hloop i List.mem_cons_self
    rw [Nat.mod_eq_of_lt hk] at hi
    refine ⟨rest, ?_⟩
    rw [mutexExecuteRequest, mutexGetRequest, hloop, hi]

/-- **Two workers that drew different mutexes lose an update**: both load before either stores. -/
theorem exists_lost_update (hn : 2 ≤ n) {todo : ℕ → List ℕ} {rest₀ rest₁ : List ℕ}
    (h₀ : todo 0 = 0 :: rest₀) (h₁ : todo 1 = 1 :: rest₁) :
    ∃ hist s, Run (countMove n) (startCount todo) hist s ∧ s.globalVar = 1 ∧
      hist.countP increments = 2 := by
  have hn₀ : 0 < n := by omega
  have hn₁ : 1 < n := by omega
  have hplay : ∃ hist s, Run.play (countMove n) (startCount todo) [0, 0, 1, 1, 0, 1]
      = some (hist, s) ∧ s.globalVar = 1 ∧ hist.countP increments = 2 := by
    simp [Run.play, countMove, startCount, CountRun.goto, increments, hn₀, hn₁, h₀, h₁]
  obtain ⟨hist, s, hplay, hgood⟩ := hplay
  exact ⟨hist, s, Run.of_play hplay, hgood⟩

/-- **The variable counts the increments exactly when there is one mutex or one worker.** -/
theorem countsExactly_iff (hnum : 0 < cfg.mutexNum) (hlocks : cfg.mutexLocks < 2 ^ 32) (n : ℕ) :
    CountsExactly cfg n ↔ cfg.mutexNum = 1 ∨ n ≤ 1 := by
  constructor
  · intro hexact
    by_contra hne
    obtain ⟨hnum₁, hn⟩ := not_or.mp hne
    obtain ⟨rest₀, hrest₀⟩ := exists_draws hnum hlocks (k := 0) hnum
    obtain ⟨rest₁, hrest₁⟩ := exists_draws hnum hlocks (k := 1) (by omega)
    let todo : ℕ → List ℕ := fun w => if w = 1 then 1 :: rest₁ else 0 :: rest₀
    have hdraws : Draws cfg n todo := by
      intro w _
      rcases eq_or_ne w 1 with rfl | hw
      · exact ⟨_, hrest₁⟩
      · exact ⟨_, by simpa [todo, hw] using hrest₀⟩
    have htwoWorkers : 2 ≤ n := by omega
    have htodo₀ : todo 0 = 0 :: rest₀ := rfl
    obtain ⟨hist, s, hrun, hone, htwo⟩ := exists_lost_update htwoWorkers htodo₀ rfl
    have := hexact todo hdraws hist s hrun
    rw [hone, htwo] at this
    cases this
  · intro hone todo hdraws hist s hrun
    refine globalVar_of_contend (fun w hw v hv m hm m' hm' => ?_) hrun
    rcases hone with hone | hone
    · have hzero : ∀ u < n, ∀ k ∈ todo u, k = 0 := by
        intro u hu k hk
        obtain ⟨rand, hrand⟩ := hdraws u hu
        obtain ⟨indices, hloop, -, hall⟩ := mutexLoop_eq hnum rand hlocks
        rw [mutexExecuteRequest, mutexGetRequest, hloop] at hrand
        obtain rfl := Except.ok.inj hrand
        have := hall k hk
        omega
      exact Or.inl ((hzero w hw m hm).trans (hzero v hv m' hm').symm)
    · exact Or.inr (by omega)

/-- The default of `mutex-num` is 4096; with it two workers may lose an update, with one mutex they
do not. -/
theorem countsExactly_iff_twoWorkers :
    ¬ CountsExactly ⟨4096, 10000, 50000⟩ 2 ∧ CountsExactly ⟨1, 10000, 50000⟩ 2 := by
  constructor
  · exact fun h => absurd ((countsExactly_iff (by decide) (by decide) 2).mp h) (by decide)
  · exact (countsExactly_iff (by decide) (by decide) 2).mpr (Or.inl rfl)

end Lost

end Sysbench.Workloads
