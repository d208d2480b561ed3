import Sysbench.Machinery.Traces

/-!
# Threads/WinOnce — `pthread_once` of the Windows port

The first caller changes the control word from `INIT` to `INPROGRESS` in one interlocked step, runs
the routine and stores `DONE`; whoever finds `INPROGRESS` polls until it has gone.  The routine is a
list of changes of what it initialises, made one at a time, so that the others come in between.
Scripts call it from every thread that connects, with the routine that sets the driver.
-/

namespace Sysbench.Threads

/-- `pthread_once_t`. -/
inductive OnceControl
  | init
  | inProgress
  | done
  deriving DecidableEq, Repr

/-- Where a thread is: in the routine, with what is left of it, or in the polling loop. -/
inductive OncePc (σ : Type)
  | outside
  | running (rest : List (σ → σ))
  | polling
  | returned

/-- The control word, what the routine initialises, and the threads. -/
structure Once (τ σ : Type) where
  control : OnceControl
  shared : σ
  pc : τ → OncePc σ

/-- A thread calls `pthread_once`, or goes on in it. -/
inductive OnceMove
  | call
  | go
  deriving DecidableEq, Repr

variable {τ σ : Type} [DecidableEq τ] {routine : List (σ → σ)} {s s' : Once τ σ} {s₀ : σ} {t u : τ}
  {m : OnceMove} {hist : List (Once τ σ × (τ × OnceMove))}

namespace Once

/-- The thread goes on to `p`. -/
def goto (s : Once τ σ) (t : τ) (p : OncePc σ) : Once τ σ :=
  { s with pc := Function.update s.pc t p }

@[simp] theorem goto_pc_self {p : OncePc σ} : (s.goto t p).pc t = p := Function.update_self ..

theorem goto_pc_of_ne {p : OncePc σ} (hu : u ≠ t) : (s.goto t p).pc u = s.pc u :=
  Function.update_of_ne hu ..

/-- `InterlockedCompareExchange` and the `switch` on what it returned. -/
def call (routine : List (σ → σ)) (s : Once τ σ) (t : τ) : Once τ σ :=
  match s.control with
  | .init => { s with control := .inProgress }.goto t (.running routine)
  | .inProgress => s.goto t .polling
  | .done => s.goto t .returned

/-- A move of thread `i.1`, if it can make it. -/
def move (routine : List (σ → σ)) (s : Once τ σ) (i : τ × OnceMove) : Option (Once τ σ) :=
  match i.2, s.pc i.1 with
  | .call, .outside | .call, .returned => some (s.call routine i.1)
  | .go, .running (f :: rest) => some ({ s with shared := f s.shared }.goto i.1 (.running rest))
  | .go, .running [] => some ({ s with control := .done }.goto i.1 .returned)
  | .go, .polling => if s.control = .inProgress then none else some (s.goto i.1 .returned)
  | _, _ => none

end Once

/-- `PTHREAD_ONCE_INIT`, and nobody has called. -/
def onceInit (s₀ : σ) : Once τ σ := ⟨.init, s₀, fun _ => .outside⟩

/-- What the routine makes of `s₀`. -/
def initialised (routine : List (σ → σ)) (s₀ : σ) : σ := routine.foldl (fun s f => f s) s₀

/-- A call that starts the routine. -/
def startsRoutine (e : Once τ σ × (τ × OnceMove)) : Bool :=
  decide (e.2.2 = .call ∧ e.1.control = .init)

/-! ## What a step can do -/

/-- **The steps**, each with what it needs of the state before it. -/
inductive OnceStep (routine : List (σ → σ)) (s : Once τ σ) (t : τ) : OnceMove → Once τ σ → Prop
  | first (hpc : s.pc t = .outside ∨ s.pc t = .returned) (hcontrol : s.control = .init) :
      OnceStep routine s t .call ({ s with control := .inProgress }.goto t (.running routine))
  | poll (hpc : s.pc t = .outside ∨ s.pc t = .returned) (hcontrol : s.control = .inProgress) :
      OnceStep routine s t .call (s.goto t .polling)
  | nothing (hpc : s.pc t = .outside ∨ s.pc t = .returned) (hcontrol : s.control = .done) :
      OnceStep routine s t .call (s.goto t .returned)
  | change {f : σ → σ} {rest : List (σ → σ)} (hpc : s.pc t = .running (f :: rest)) :
      OnceStep routine s t .go ({ s with shared := f s.shared }.goto t (.running rest))
  | finish (hpc : s.pc t = .running []) :
      OnceStep routine s t .go ({ s with control := .done }.goto t .returned)
  | seen (hpc : s.pc t = .polling) (hcontrol : s.control ≠ .inProgress) :
      OnceStep routine s t .go (s.goto t .returned)

theorem onceStep_call (hpc : s.pc t = .outside ∨ s.pc t = .returned) :
    OnceStep routine s t .call (s.call routine t) := by
  unfold Once.call
  cases hcontrol : s.control with
  | init => exact .first hpc hcontrol
  | inProgress => exact .poll hpc hcontrol
  | done => exact .nothing hpc hcontrol

theorem onceStep_of_move (h : s.move routine (t, m) = some s') : OnceStep routine s t m s' := by
  unfold Once.move at h
  split at h
  next hm hpc =>
    obtain rfl : m = .call := hm
    exact Option.some.inj h ▸ onceStep_call (.inl hpc)
  next hm hpc =>
    obtain rfl : m = .call := hm
    exact Option.some.inj h ▸ onceStep_call (.inr hpc)
  next hm hpc =>
    obtain rfl : m = .go := hm
    exact Option.some.inj h ▸ .change hpc
  next hm hpc =>
    obtain rfl : m = .go := hm
    exact Option.some.inj h ▸ .finish hpc
  next hm hpc =>
    obtain rfl : m = .go := hm
    split_ifs at h with hcontrol
    exact Option.some.inj h ▸ .seen hpc hcontrol
  next => cases h

/-! ## The three phases of a run -/

/-- **The phases**, with how often the routine has been started: nobody has called; one thread runs
the routine and what is left of it makes of `shared` what the whole makes of `s₀`; it is done. -/
inductive OncePhase (routine : List (σ → σ)) (s₀ : σ) (s : Once τ σ) : ℕ → Prop
  | before (hcontrol : s.control = .init) (hpcs : ∀ t, s.pc t = .outside)
      (hshared : s.shared = s₀) : OncePhase routine s₀ s 0
  | during {leader : τ} {rest : List (σ → σ)} (hcontrol : s.control = .inProgress)
      (hleader : s.pc leader = .running rest)
      (hpcs : ∀ t, t ≠ leader → s.pc t = .outside ∨ s.pc t = .polling)
      (hshared : initialised rest s.shared = initialised routine s₀) : OncePhase routine s₀ s 1
  | after (hcontrol : s.control = .done)
      (hpcs : ∀ t, s.pc t = .outside ∨ s.pc t = .polling ∨ s.pc t = .returned)
      (hshared : s.shared = initialised routine s₀) : OncePhase routine s₀ s 1

theorem OncePhase.step {n : ℕ} (h : OncePhase routine s₀ s n) (hs : OnceStep routine s t m s') :
    OncePhase routine s₀ s' (n + (startsRoutine (s, (t, m))).toNat) := by
  cases h with
  | before hcontrol hpcs hshared =>
    cases hs with
    | first hpc _ =>
      simp only [startsRoutine, hcontrol, and_self, decide_true]
      refine .during rfl Once.goto_pc_self (fun u hu => .inl ?_) (congrArg _ hshared)
      exact (Once.goto_pc_of_ne hu).trans (hpcs u)
    | _ => simp_all
  | @during leader rest hcontrol hleader hpcs hshared =>
    have hstart : startsRoutine (s, (t, m)) = false := by simp [startsRoutine, hcontrol]
    rw [hstart]
    by_cases ht : t = leader
    · subst ht
      cases hs with
      | @change f rest' hpc =>
        obtain rfl : rest = f :: rest' := OncePc.running.inj (hleader.symm.trans hpc)
        refine .during hcontrol Once.goto_pc_self (fun u hu => ?_) hshared
        rw [Once.goto_pc_of_ne hu]
        exact hpcs u hu
      | finish hpc =>
        obtain rfl : rest = [] := OncePc.running.inj (hleader.symm.trans hpc)
        refine .after rfl (fun u => ?_) hshared
        by_cases hu : u = t
        · exact .inr (.inr (hu ▸ Once.goto_pc_self))
        · rw [Once.goto_pc_of_ne hu]
          exact (hpcs u hu).imp_right .inl
      | _ => simp_all
    · have hpoll : s' = s.goto t .polling := by
        have hpc := hpcs t ht
        cases hs <;> simp_all
      subst hpoll
      refine .during hcontrol ((Once.goto_pc_of_ne (Ne.symm ht)).trans hleader)
        (fun u hu => ?_) hshared
      by_cases hut : u = t
      · exact .inr (hut ▸ Once.goto_pc_self)
      · rw [Once.goto_pc_of_ne hut]
        exact hpcs u hu
  | after hcontrol hpcs hshared =>
    have hstart : startsRoutine (s, (t, m)) = false := by simp [startsRoutine, hcontrol]
    have hback : s' = s.goto t .returned := by
      have hpc := hpcs t
      cases hs <;> simp_all
    subst hback
    rw [hstart]
    refine .after hcontrol (fun u => ?_) hshared
    by_cases hu : u = t
    · exact .inr (.inr (hu ▸ Once.goto_pc_self))
    · rw [Once.goto_pc_of_ne hu]
      exact hpcs u

theorem oncePhase_of_run (hrun : Run (Once.move routine) (onceInit s₀) hist s) :
    OncePhase routine s₀ s (hist.countP startsRoutine) := by
  refine hrun.induction (fun hist s => OncePhase routine s₀ s (hist.countP startsRoutine))
    (.before rfl (fun _ => rfl) rfl) ?_
  intro hist s ⟨t, m⟩ s' ih hmove
  rw [countP_concat]
  exact ih.step (onceStep_of_move hmove)

/-- **`pthread_once` initialises once, and nobody returns before it is done**, in every run; and
when no thread can go on, every call has returned. -/
theorem pthreadOnce_initialises (hrun : Run (Once.move routine) (onceInit s₀) hist s) :
    hist.countP startsRoutine ≤ 1 ∧
      (∀ t, s.pc t = .returned →
        hist.countP startsRoutine = 1 ∧ s.shared = initialised routine s₀) ∧
      ((∀ t, s.move routine (t, .go) = none) → ∀ t, s.pc t = .outside ∨ s.pc t = .returned) := by
  have hphase := oncePhase_of_run hrun
  generalize hist.countP startsRoutine = n at hphase
  cases hphase with
  | before hcontrol hpcs hshared =>
    exact ⟨by omega, fun t ht => by simp [hpcs t] at ht, fun _ t => .inl (hpcs t)⟩
  | @during leader rest hcontrol hleader hpcs hshared =>
    refine ⟨le_rfl, fun t ht => ?_, fun hstuck => ?_⟩
    · by_cases htl : t = leader
      · simp [htl, hleader] at ht
      · rcases hpcs t htl with hp | hp <;> simp [hp] at ht
    · have hgo := hstuck leader
      cases rest <;> simp [Once.move, hleader] at hgo
  | after hcontrol hpcs hshared =>
    refine ⟨le_rfl, fun t _ => ⟨rfl, hshared⟩, fun hstuck t => ?_⟩
    rcases hpcs t with hp | hp | hp
    · exact .inl hp
    · have hgo := hstuck t
      simp [Once.move, hp, hcontrol] at hgo
    · exact .inr hp

/-- `sb_lua_db_init_once`, for what `db_init(NULL)` returns. -/
def sbLuaDbInitOnce {ν : Type} (dbInit : Option ν) (driver : Option ν) : Option ν :=
  match driver with
  | none => dbInit
  | some d => some d

/-- Two threads connect at once: the second polls while the first initialises the driver. -/
def connectTwice : List (Bool × OnceMove) :=
  [(false, .call), (true, .call), (false, .go), (false, .go), (true, .go)]

theorem pthreadOnce_initialises_driver :
    ∃ hist s, Run (Once.move [sbLuaDbInitOnce (some 7)]) (onceInit (none : Option ℕ)) hist s ∧
      s.pc true = .returned ∧ hist.countP startsRoutine = 1 ∧ s.shared = some 7 := by
  have h : Run.play (Once.move [sbLuaDbInitOnce (some 7)]) (onceInit none) connectTwice
      = some (_, _) := rfl
  have hrun := Run.of_play h
  exact ⟨_, _, hrun, rfl, (pthreadOnce_initialises hrun).2.1 true rfl⟩

end Sysbench.Threads
