import Sysbench.Machinery.Traces
import Sysbench.Threads.Barrier

/-!
# Threads/BarrierReuse — one barrier, generation after generation

A barrier is used again as soon as it has let a generation through: threads that return may call at
once, and others come and go while a waiter of an earlier generation is still to take the mutex.
Which generation a waiter belongs to is the `serial` it has noted; what it returns is decided when
it finds the barrier's `serial` changed, by the barrier's `error` *at that time*.  The last thread
to come decides by its own callback.

`error` is set by a callback that fails and never cleared.  So the callers of a generation whose
callback failed all return a negative value, and those of one whose callback succeeded agree exactly
when no callback has failed by the time the last of its waiters takes the mutex
(`barrierAgreed_iff`).
-/

namespace Sysbench.Threads

variable {τ σ : Type} [DecidableEq τ] {callback : Option (σ → ℤ × σ)} {b b' : Barrier τ σ} {t u : τ}
  {m : BarrierMove}

/-- A step of any thread. -/
def barrierMove (callback : Option (σ → ℤ × σ)) (b : Barrier τ σ) (i : τ × BarrierMove) :
    Option (Barrier τ σ) := b.step callback i.1 i.2

/-- A step of a run, with the state it is made in. -/
abbrev BarrierEvent (τ σ : Type) : Type := Barrier τ σ × (τ × BarrierMove)

/-! ## What a step can do -/

/-- **The steps**, each with what it needs of the state before it. -/
inductive BarrierStep (callback : Option (σ → ℤ × σ)) (b : Barrier τ σ) (t : τ) :
    BarrierMove → Barrier τ σ → Prop
  | call (hpc : b.pc t = .outside ∨ ∃ r, b.pc t = .returned r) :
      BarrierStep callback b t .call (b.goto t b.owner .locking)
  | last (hpc : b.pc t = .locking) (hfree : b.owner = none) (hcount : b.count = 1) :
      BarrierStep callback b t .enter (b.trip.goto t (some t) .last)
  | sleep (hpc : b.pc t = .locking) (hfree : b.owner = none) (hcount : 1 < b.count) :
      BarrierStep callback b t .enter
        ({ b with count := b.count - 1 }.goto t none (.sleeping b.serial false))
  | callback (hpc : b.pc t = .last) :
      BarrierStep callback b t .callback (b.runCallback callback t)
  | wake {serial : ℕ} {signalled : Bool} {m : BarrierMove} (hm : m = .wake ∨ m = .spurious)
      (hpc : b.pc t = .sleeping serial signalled) (hfree : b.owner = none) :
      BarrierStep callback b t m (b.goto t (some t) (.woken serial))
  | again (hpc : b.pc t = .woken b.serial) :
      BarrierStep callback b t .test (b.goto t none (.sleeping b.serial false))
  | ends {serial : ℕ} (hpc : b.pc t = .woken serial) (hne : serial ≠ b.serial) :
      BarrierStep callback b t .test (b.goto t b.owner (.leaving (if b.error then -1 else 0)))
  | unlock {res : ℤ} (hpc : b.pc t = .leaving res) :
      BarrierStep callback b t .unlock (b.goto t none (.returned res))

theorem barrierStep_of_step (hpos : 0 < b.count) (hlt : b.count < 2 ^ 32)
    (h : b.step callback t m = some b') : BarrierStep callback b t m b' := by
  cases m with
  | call =>
    cases hpc : b.pc t <;> simp only [Barrier.step, hpc, reduceCtorEq, Option.some.injEq] at h
    · subst h
      exact .call (.inl hpc)
    · subst h
      exact .call (.inr ⟨_, hpc⟩)
  | enter =>
    obtain ⟨⟨hpc, hfree⟩, h⟩ := Option.ite_none_right_eq_some.mp h
    obtain rfl := Option.some.inj h
    by_cases hcount : b.count = 1
    · rw [enter_last hcount]
      exact .last hpc hfree hcount
    · have hmore : 1 < b.count := by omega
      rw [enter_sleep hmore hlt]
      exact .sleep hpc hfree hmore
  | callback =>
    obtain ⟨hpc, h⟩ := Option.ite_none_right_eq_some.mp h
    obtain rfl := Option.some.inj h
    exact .callback hpc
  | wake =>
    cases hpc : b.pc t <;> simp only [Barrier.step, hpc, reduceCtorEq] at h
    split at h
    next heq =>
      obtain ⟨rfl, -⟩ := WaitPc.sleeping.inj heq
      obtain ⟨hfree, h⟩ := Option.ite_none_right_eq_some.mp h
      obtain rfl := Option.some.inj h
      exact .wake (.inl rfl) hpc hfree
    next => cases h
  | spurious =>
    cases hpc : b.pc t <;> simp only [Barrier.step, hpc, reduceCtorEq] at h
    obtain ⟨hfree, h⟩ := Option.ite_none_right_eq_some.mp h
    obtain rfl := Option.some.inj h
    exact .wake (.inr rfl) hpc hfree
  | test =>
    cases hpc : b.pc t <;> simp only [Barrier.step, hpc, reduceCtorEq, Option.some.injEq] at h
    subst h
    unfold Barrier.test
    split
    next heq =>
      subst heq
      exact .again hpc
    next hne => exact .ends hpc hne
  | unlock =>
    cases hpc : b.pc t <;> simp only [Barrier.step, hpc, reduceCtorEq, Option.some.injEq] at h
    subst h
    exact .unlock hpc

/-! ## What is seen of a run -/

section Observed

variable (callback) (hist : List (BarrierEvent τ σ))

/-- Whether each callback succeeded, generation after generation. -/
def verdicts : List Bool :=
  hist.filterMap fun e =>
    if e.2.2 = .callback then some (callbackOk callback e.1.shared).1 else none

/-- The generation of a call that is about to decide what it returns. -/
def WaitPc.generation (serial : ℕ) : WaitPc → Option ℕ
  | .woken g => some g
  | .last => some (serial - 1)
  | _ => none

/-- The step decides what a call returns: its generation, and the result. -/
def decided (e : BarrierEvent τ σ) : Option (ℕ × ℤ) :=
  match (e.1.pc e.2.1).generation e.1.serial,
      (e.1.step callback e.2.1 e.2.2).map fun b : Barrier τ σ => b.pc e.2.1 with
  | some g, some (WaitPc.leaving res) => some (g, res)
  | _, _ => none

/-- What the callers of generation `g` return, in the order in which they decide it. -/
def results (g : ℕ) : List ℤ :=
  hist.filterMap fun e => (decided callback e).bind fun p => if p.1 = g then some p.2 else none

/-- The number of generations that have been let through. -/
def trips : ℕ := hist.countP fun e => e.2.2 = .enter && e.1.count = 1

/-- **A waiter of generation `g` finds that its wait is over.** -/
def EndsWait (g : ℕ) (e : BarrierEvent τ σ) : Prop :=
  e.2.2 = .test ∧ e.1.pc e.2.1 = .woken g ∧ g ≠ e.1.serial

instance (g : ℕ) (e : BarrierEvent τ σ) : Decidable (EndsWait g e) :=
  inferInstanceAs (Decidable (_ ∧ _ ∧ _))

/-- The steps that end a wait of generation `g`. -/
def waitEnds (g : ℕ) (hist : List (BarrierEvent τ σ)) : List (BarrierEvent τ σ) :=
  hist.filter fun e => EndsWait g e

end Observed

/-- The thread waits, as one of generation `g`. -/
def WaitPc.waitsFor (g : ℕ) : WaitPc → Bool
  | .sleeping serial _ => serial = g
  | .woken serial => serial = g
  | _ => false

/-- The thread holds the mutex. -/
def WaitPc.holds : WaitPc → Bool
  | .woken _ | .last | .leaving _ => true
  | _ => false

section Waiters

variable [Fintype τ]

/-- The waiters of generation `g`. -/
def waiters (b : Barrier τ σ) (g : ℕ) : Finset τ := Finset.univ.filter fun t => (b.pc t).waitsFor g

/-- The threads that are about to run the callback. -/
def leaders (b : Barrier τ σ) : Finset τ := Finset.univ.filter fun t => b.pc t = .last

/-- **The callers of each generation agree**: once its callback has run, some of them have decided
what they return and the others wait; the last to come returns `SB_BARRIER_SERIAL_THREAD` or a
negative value, and the others 0 or a negative value, as the callback succeeded or not. -/
def BarrierAgreed (callback : Option (σ → ℤ × σ)) (n : ℕ) (hist : List (BarrierEvent τ σ))
    (b : Barrier τ σ) : Prop :=
  ∀ g ok, (verdicts callback hist)[g]? = some ok →
    ∃ k, k + (waiters b g).card + 1 = n ∧
      results callback hist g = leaderRes ok :: List.replicate k (otherRes ok)

variable {g n : ℕ} {o : Option τ} {p : WaitPc} {hist : List (BarrierEvent τ σ)}

omit [DecidableEq τ] in
theorem mem_waiters : t ∈ waiters b g ↔ (b.pc t).waitsFor g = true := by simp [waiters]

omit [DecidableEq τ] in
theorem mem_leaders : t ∈ leaders b ↔ b.pc t = .last := by simp [leaders]

/-- A thread that waits for the generation after as it did before. -/
theorem waiters_goto_same (h : p.waitsFor g = (b.pc t).waitsFor g) :
    waiters (b.goto t o p) g = waiters b g := by
  ext u
  rw [mem_waiters, mem_waiters]
  by_cases hu : u = t
  · rw [hu, goto_pc_self, h]
  · rw [goto_pc_of_ne hu]

/-- A thread that begins to wait. -/
theorem waiters_goto_insert (h : p.waitsFor g = true) :
    waiters (b.goto t o p) g = insert t (waiters b g) := by
  ext u
  rw [Finset.mem_insert, mem_waiters, mem_waiters]
  by_cases hu : u = t
  · simp [hu, h]
  · rw [goto_pc_of_ne hu]
    simp [hu]

/-- A thread that ends its wait. -/
theorem waiters_goto_erase (h : p.waitsFor g = false) :
    waiters (b.goto t o p) g = (waiters b g).erase t := by
  ext u
  rw [Finset.mem_erase, mem_waiters, mem_waiters]
  by_cases hu : u = t
  · simp [hu, h]
  · rw [goto_pc_of_ne hu]
    simp [hu]

omit [DecidableEq τ] in
/-- The signal changes no thread's generation. -/
theorem waiters_trip : waiters b.trip g = waiters b g := by
  ext u
  rw [mem_waiters, mem_waiters]
  simp only [Barrier.trip, signalAll]
  cases b.pc u <;> rfl

theorem leaders_goto_same (h : p ≠ .last) (h' : b.pc t ≠ .last) :
    leaders (b.goto t o p) = leaders b := by
  ext u
  rw [mem_leaders, mem_leaders]
  by_cases hu : u = t
  · rw [hu, goto_pc_self]
    exact iff_of_false h h'
  · rw [goto_pc_of_ne hu]

/-! ## The generations of a run -/

/-- What a waiter returns that takes the mutex in this state. -/
def readResult (e : BarrierEvent τ σ) : ℤ := if e.1.error then -1 else 0

/-- **The invariant of a run.**  Threads are counted once for each generation; a generation that has
been let through has `n` callers, of which the last to come has yet to run the callback (`pending`)
or was the first to decide what it returns (`returns`); `error` says whether a callback has
failed. -/
structure Generations (callback : Option (σ → ℤ × σ)) (n : ℕ) (hist : List (BarrierEvent τ σ))
    (b : Barrier τ σ) : Prop where
  initCount : b.initCount = n
  serial : b.serial = trips hist
  count : b.count + (waiters b b.serial).card = n
  pos : 0 < b.count
  future : ∀ g, b.serial < g → waiters b g = ∅
  owner : ∀ t, b.owner = some t ↔ (b.pc t).holds = true
  leader : (verdicts callback hist).length + (leaders b).card = b.serial
  error : b.error = true ↔ false ∈ verdicts callback hist
  pending : ∀ g, (verdicts callback hist).length ≤ g →
    results callback hist g = [] ∧ waitEnds g hist = [] ∧
      (g < b.serial → (waiters b g).card + 1 = n)
  returns : ∀ g ok, (verdicts callback hist)[g]? = some ok →
    results callback hist g = leaderRes ok :: (waitEnds g hist).map readResult ∧
      (results callback hist g).length + (waiters b g).card = n
  late : ∀ e ∈ hist, ∀ g, EndsWait g e → (verdicts callback hist)[g]? = some false →
    e.1.error = true

/-- Only one thread holds the mutex. -/
theorem Generations.holds_unique (hG : Generations callback n hist b)
    (ht : (b.pc t).holds = true) (hu : (b.pc u).holds = true) : u = t := by
  have ht := (hG.owner t).mpr ht
  rw [(hG.owner u).mpr hu] at ht
  exact Option.some.inj ht

/-- Where no callback is about to run, each generation let through has had its own. -/
theorem Generations.leaders_eq_empty (hG : Generations callback n hist b)
    (h : ∀ t, b.owner = some t → b.pc t ≠ .last) : leaders b = ∅ := by
  refine Finset.eq_empty_of_forall_notMem fun t ht => ?_
  rw [mem_leaders] at ht
  exact h t ((hG.owner t).mpr (by rw [ht]; rfl)) ht

/-- The mutex after a step that takes it, keeps it or gives it back. -/
theorem Generations.owner_goto (hG : Generations callback n hist b) {b₁ : Barrier τ σ}
    (hholds : ∀ u, (b₁.pc u).holds = (b.pc u).holds)
    (h : (o = some t ∧ p.holds = true ∧ (b.owner = none ∨ b.owner = some t)) ∨
      (o = none ∧ p.holds = false ∧ (b.owner = none ∨ b.owner = some t)) ∨
      (o = b.owner ∧ p.holds = (b.pc t).holds)) (u : τ) :
    (b₁.goto t o p).owner = some u ↔ ((b₁.goto t o p).pc u).holds = true := by
  rw [goto_owner]
  by_cases hu : u = t
  · subst hu
    rw [goto_pc_self]
    rcases h with ⟨rfl, hp, -⟩ | ⟨rfl, hp, -⟩ | ⟨rfl, hp⟩
    · simp [hp]
    · simp [hp]
    · rw [hp]
      exact hG.owner u
  · rw [goto_pc_of_ne hu, hholds, ← hG.owner u]
    rcases h with ⟨rfl, -, hb | hb⟩ | ⟨rfl, -, hb | hb⟩ | ⟨rfl, -⟩
    · simp [hb, Ne.symm hu]
    · simp [hb]
    · simp [hb]
    · simp [hb, Ne.symm hu]
    · rfl

/-! ### What a step adds to what is seen -/

omit [DecidableEq τ] [Fintype τ] in
theorem verdicts_concat (e : BarrierEvent τ σ) :
    verdicts callback (hist ++ [e]) = verdicts callback hist
      ++ (if e.2.2 = .callback then [(callbackOk callback e.1.shared).1] else []) := by
  rw [verdicts, List.filterMap_append]
  split_ifs with h <;> simp [verdicts, h]

omit [Fintype τ] in
theorem results_concat (e : BarrierEvent τ σ) (g : ℕ) :
    results callback (hist ++ [e]) g = results callback hist g
      ++ ((decided callback e).bind fun p => if p.1 = g then some p.2 else none).toList := by
  rw [results, List.filterMap_append]
  cases h : (decided callback e).bind fun p => if p.1 = g then some p.2 else none <;>
    simp [results, h]

omit [DecidableEq τ] [Fintype τ] in
theorem waitEnds_concat (e : BarrierEvent τ σ) (g : ℕ) :
    waitEnds g (hist ++ [e]) = waitEnds g hist ++ if EndsWait g e then [e] else [] := by
  rw [waitEnds, List.filter_append]
  split_ifs with h <;> simp [waitEnds, h]

omit [Fintype τ] in
/-- What a step decides, by where it leads from and to. -/
theorem decided_eq (hstep : b.step callback t m = some b') :
    decided callback (b, t, m)
      = match (b.pc t).generation b.serial, b'.pc t with
        | some g, .leaving res => some (g, res)
        | _, _ => none := by
  unfold decided
  rw [hstep, Option.map_some]
  cases (b.pc t).generation b.serial <;> cases b'.pc t <;> rfl

omit [DecidableEq τ] [Fintype τ] in
theorem verdicts_concat_of_ne {e : BarrierEvent τ σ} (h : e.2.2 ≠ .callback) :
    verdicts callback (hist ++ [e]) = verdicts callback hist := by
  rw [verdicts_concat, if_neg h, List.append_nil]

omit [Fintype τ] in
theorem results_concat_of_none {e : BarrierEvent τ σ} (h : decided callback e = none) (g : ℕ) :
    results callback (hist ++ [e]) g = results callback hist g := by
  rw [results_concat, h]
  exact List.append_nil _

omit [Fintype τ] in
theorem results_concat_of_some (hist : List (BarrierEvent τ σ)) {e : BarrierEvent τ σ} {g₀ : ℕ}
    {res : ℤ} (h : decided callback e = some (g₀, res)) (g : ℕ) :
    results callback (hist ++ [e]) g
      = results callback hist g ++ if g = g₀ then [res] else [] := by
  rw [results_concat, h, Option.bind_some]
  by_cases hg : g = g₀
  · rw [if_pos hg.symm, if_pos hg]
    rfl
  · rw [if_neg (Ne.symm hg), if_neg hg]
    rfl

omit [DecidableEq τ] [Fintype τ] in
theorem waitEnds_concat_of_not {e : BarrierEvent τ σ} (h : ¬ EndsWait g e) :
    waitEnds g (hist ++ [e]) = waitEnds g hist := by
  rw [waitEnds_concat, if_neg h, List.append_nil]

omit [DecidableEq τ] [Fintype τ] in
theorem trips_concat (h : m ≠ .enter ∨ b.count ≠ 1) :
    trips (hist ++ [(b, t, m)]) = trips hist := by
  rw [trips, countP_concat]
  rcases h with h | h <;> simp [trips, h]

/-- Where no callback is about to run, there is a verdict for each generation let through. -/
theorem Generations.length_verdicts (hG : Generations callback n hist b) (h : leaders b = ∅) :
    (verdicts callback hist).length = b.serial := by
  rw [← hG.leader, h, Finset.card_empty, add_zero]

/-- A step that ends no wait is not late. -/
theorem Generations.late_concat (hG : Generations callback n hist b) {e : BarrierEvent τ σ}
    (hends : ∀ g, ¬ EndsWait g e) : ∀ e' ∈ hist ++ [e], ∀ g, EndsWait g e' →
      (verdicts callback hist)[g]? = some false → e'.1.error = true := by
  rw [List.forall_mem_append, List.forall_mem_singleton]
  exact ⟨hG.late, fun g hew => absurd hew (hends g)⟩

/-- **A step that decides nothing** and lets no generation through. -/
theorem Generations.quiet (hG : Generations callback n hist b) {e : BarrierEvent τ σ}
    (hdecided : decided callback e = none) (hcallback : e.2.2 ≠ .callback)
    (hends : ∀ g, ¬ EndsWait g e) (htrip : trips (hist ++ [e]) = trips hist)
    (hinit : b'.initCount = b.initCount) (hserial : b'.serial = b.serial)
    (herror : b'.error = b.error) (hpos : 0 < b'.count)
    (hcount : b'.count + (waiters b' b.serial).card = n)
    (hwaiters : ∀ g, g ≠ b.serial → waiters b' g = waiters b g) (hleaders : leaders b' = leaders b)
    (howner : ∀ t, b'.owner = some t ↔ (b'.pc t).holds = true) :
    Generations callback n (hist ++ [e]) b' := by
  have hverdicts : verdicts callback (hist ++ [e]) = verdicts callback hist :=
    verdicts_concat_of_ne hcallback
  have hresults : ∀ g, results callback (hist ++ [e]) g = results callback hist g :=
    results_concat_of_none hdecided
  have hwait : ∀ g, waitEnds g (hist ++ [e]) = waitEnds g hist := fun g =>
    waitEnds_concat_of_not (hends g)
  have hlen := hG.leader
  constructor
  · rw [hinit, hG.initCount]
  · rw [hserial, htrip, hG.serial]
  · rw [hserial, hcount]
  · exact hpos
  · intro g hg
    rw [hserial] at hg
    rw [hwaiters g (by omega), hG.future g hg]
  · exact howner
  · rw [hverdicts, hleaders, hserial, hG.leader]
  · rw [hverdicts, herror, hG.error]
  · intro g hg
    rw [hverdicts] at hg
    rw [hresults, hwait]
    refine ⟨(hG.pending g hg).1, (hG.pending g hg).2.1, fun hlt => ?_⟩
    rw [hserial] at hlt
    rw [hwaiters g (by omega)]
    exact (hG.pending g hg).2.2 hlt
  · intro g ok hok
    rw [hverdicts] at hok
    rw [hresults, hwait]
    have hlt := (List.getElem?_eq_some_iff.mp hok).1
    rw [hwaiters g (by omega)]
    exact hG.returns g ok hok
  · rw [hverdicts]
    exact hG.late_concat hends

/-- A generation that is let through gets its leader. -/
theorem leaders_trip_goto (hnone : leaders b = ∅) : leaders (b.trip.goto t o .last) = {t} := by
  ext u
  rw [mem_leaders, Finset.mem_singleton]
  by_cases hu : u = t
  · simp [hu]
  · rw [goto_pc_of_ne hu]
    have hnot : b.pc u ≠ .last := fun hl => by
      have := mem_leaders.mpr hl
      rw [hnone] at this
      exact absurd this (Finset.notMem_empty u)
    refine iff_of_false (fun hl => hnot ?_) hu
    simp only [Barrier.trip, signalAll] at hl
    cases hp : b.pc u <;> rw [hp] at hl <;> first | rfl | cases hl

/-- The last thread to come lets the generation through. -/
theorem Generations.last (hG : Generations callback n hist b) (hpc : b.pc t = .locking)
    (hfree : b.owner = none) (hcount : b.count = 1)
    (hlt : trips (hist ++ [((b, t, .enter) : BarrierEvent τ σ)]) < 2 ^ 32)
    (hstep : b.step callback t .enter = some (b.trip.goto t (some t) .last)) :
    Generations callback n (hist ++ [((b, t, .enter) : BarrierEvent τ σ)])
      (b.trip.goto t (some t) .last) := by
  have hverdicts : verdicts callback (hist ++ [((b, t, .enter) : BarrierEvent τ σ)])
      = verdicts callback hist := verdicts_concat_of_ne (by simp)
  have hdecided : decided callback (b, t, .enter) = none := by
    rw [decided_eq hstep, hpc]
    rfl
  have hends : ∀ g, ¬ EndsWait g (b, t, .enter) := fun g hew => by cases hew.1
  have hwaiters : ∀ g, waiters (b.trip.goto t (some t) .last) g = waiters b g := by
    intro g
    rw [waiters_goto_same, waiters_trip]
    simp [Barrier.trip, signalAll, hpc, WaitPc.waitsFor]
  have htrips : trips (hist ++ [((b, t, .enter) : BarrierEvent τ σ)]) = trips hist + 1 := by
    rw [trips, countP_concat]
    simp [trips, hcount]
  have hserial : (b.trip.goto t (some t) .last).serial = b.serial + 1 := by
    change toU32 ((b.serial : ℤ) + 1) = b.serial + 1
    rw [htrips, ← hG.serial] at hlt
    exact toU32_of_lt hlt
  have hnone : leaders b = ∅ := hG.leaders_eq_empty (by simp [hfree])
  have hlen := hG.length_verdicts hnone
  constructor
  · exact hG.initCount
  · rw [hserial, htrips, hG.serial]
  · rw [hserial, hwaiters, hG.future _ (Nat.lt_succ_self _), Finset.card_empty, add_zero]
    exact hG.initCount
  · change 0 < b.initCount
    have := hG.count
    rw [hG.initCount]
    omega
  · intro g hg
    rw [hserial] at hg
    rw [hwaiters, hG.future g (by omega)]
  · refine hG.owner_goto (fun u => ?_) (.inl ⟨rfl, rfl, .inl hfree⟩)
    simp only [Barrier.trip, signalAll]
    cases b.pc u <;> rfl
  · rw [hverdicts, leaders_trip_goto hnone, Finset.card_singleton, hserial, hlen]
  · rw [hverdicts]
    exact hG.error
  · intro g hg
    rw [hverdicts] at hg
    rw [results_concat_of_none hdecided, waitEnds_concat_of_not (hends g), hwaiters, hserial]
    refine ⟨(hG.pending g hg).1, (hG.pending g hg).2.1, fun hlt => ?_⟩
    obtain rfl : g = b.serial := by omega
    have := hG.count
    omega
  · intro g ok hok
    rw [hverdicts] at hok
    rw [results_concat_of_none hdecided, waitEnds_concat_of_not (hends g), hwaiters]
    exact hG.returns g ok hok
  · rw [hverdicts]
    exact hG.late_concat hends

omit [Fintype τ] in
/-- The callback, whatever was before: its failure is remembered. -/
theorem runCallback_goto :
    b.runCallback callback t
      = { b with
          shared := (callbackOk callback b.shared).2
          error := b.error || !(callbackOk callback b.shared).1 }.goto t b.owner
        (.leaving (leaderRes (callbackOk callback b.shared).1)) := by
  unfold Barrier.runCallback callbackOk
  cases callback with
  | none => simp [leaderRes]
  | some f => by_cases hf : (f b.shared).1 = 0 <;> simp [hf, leaderRes]

omit [Fintype τ] in
theorem runCallback_serial : (b.runCallback callback t).serial = b.serial := by
  rw [runCallback_goto]
  rfl

omit [Fintype τ] in
theorem runCallback_count : (b.runCallback callback t).count = b.count := by
  rw [runCallback_goto]
  rfl

theorem waiters_runCallback (hpc : b.pc t = .last) (g : ℕ) :
    waiters (b.runCallback callback t) g = waiters b g := by
  rw [runCallback_goto, waiters_goto_same (by rw [hpc]; rfl)]
  rfl

/-- The thread that is about to run the callback is the only one. -/
theorem Generations.eq_of_last (hG : Generations callback n hist b) (ht : b.pc t = .last)
    (hu : b.pc u = .last) : u = t :=
  hG.holds_unique (by rw [ht]; rfl) (by rw [hu]; rfl)

theorem Generations.leaders_runCallback (hG : Generations callback n hist b)
    (hpc : b.pc t = .last) :
    leaders (b.runCallback callback t) = ∅ := by
  refine Finset.eq_empty_of_forall_notMem fun u hu => ?_
  rw [mem_leaders, runCallback_goto] at hu
  by_cases hut : u = t
  · rw [hut, goto_pc_self] at hu
    cases hu
  · rw [goto_pc_of_ne hut] at hu
    exact hut (hG.eq_of_last hpc hu)

/-- Before its callback, the last generation let through is the one without a verdict. -/
theorem Generations.length_verdicts_last (hG : Generations callback n hist b)
    (hpc : b.pc t = .last) : (verdicts callback hist).length + 1 = b.serial := by
  have hone : leaders b = {t} := by
    ext u
    rw [mem_leaders, Finset.mem_singleton]
    refine ⟨fun hu => hG.eq_of_last hpc hu, ?_⟩
    rintro rfl
    exact hpc
  have hlen := hG.leader
  rwa [hone, Finset.card_singleton] at hlen

/-- Nobody has left a generation without a verdict. -/
theorem Generations.not_endsWait (hG : Generations callback n hist b) {g : ℕ}
    (hg : (verdicts callback hist).length ≤ g) {e : BarrierEvent τ σ} (he : e ∈ hist) :
    ¬ EndsWait g e := by
  intro hew
  have hmem : e ∈ waitEnds g hist := List.mem_filter.mpr ⟨he, decide_eq_true hew⟩
  rw [(hG.pending g hg).2.1] at hmem
  exact absurd hmem List.not_mem_nil

/-- What is found in a list with one more element. -/
theorem getElem?_concat_cases {α : Type*} {l : List α} {a x : α} {i : ℕ}
    (h : (l ++ [a])[i]? = some x) : (i < l.length ∧ l[i]? = some x) ∨ (i = l.length ∧ a = x) := by
  rcases Nat.lt_or_ge i l.length with hi | hi
  · rw [List.getElem?_append_left hi] at h
    exact .inl ⟨hi, h⟩
  · have hlt := (List.getElem?_eq_some_iff.mp h).1
    rw [List.length_append, List.length_singleton] at hlt
    obtain rfl : i = l.length := by omega
    rw [List.getElem?_concat_length, Option.some.injEq] at h
    exact .inr ⟨rfl, h⟩

/-- The callback runs: its generation gets its verdict, and its first result. -/
theorem Generations.called (hG : Generations callback n hist b) (hpc : b.pc t = .last)
    (hstep : b.step callback t .callback = some (b.runCallback callback t)) :
    Generations callback n (hist ++ [((b, t, .callback) : BarrierEvent τ σ)])
      (b.runCallback callback t) := by
  set ok := (callbackOk callback b.shared).1 with hok
  have hverdicts : verdicts callback (hist ++ [((b, t, .callback) : BarrierEvent τ σ)])
      = verdicts callback hist ++ [ok] := by
    rw [verdicts_concat, if_pos rfl]
  have hends : ∀ g, ¬ EndsWait g (b, t, .callback) := fun g hew => by cases hew.1
  have hwait : ∀ g, waitEnds g (hist ++ [((b, t, .callback) : BarrierEvent τ σ)])
      = waitEnds g hist := fun g => waitEnds_concat_of_not (hends g)
  have hlen : (verdicts callback hist).length + 1 = b.serial := hG.length_verdicts_last hpc
  have hdecided : decided callback (b, t, .callback)
      = some ((verdicts callback hist).length, leaderRes ok) := by
    rw [decided_eq hstep, hpc, runCallback_goto, goto_pc_self]
    change some (b.serial - 1, leaderRes ok) = _
    rw [← hlen, Nat.add_sub_cancel]
  have hresults := results_concat_of_some hist hdecided
  constructor
  · rw [runCallback_goto]
    exact hG.initCount
  · rw [runCallback_serial, trips_concat (.inl (by simp)), hG.serial]
  · rw [runCallback_serial, waiters_runCallback hpc, runCallback_count, hG.count]
  · rw [runCallback_count]
    exact hG.pos
  · intro g hg
    rw [runCallback_serial] at hg
    rw [waiters_runCallback hpc, hG.future g hg]
  · rw [runCallback_goto]
    exact hG.owner_goto (fun u => rfl) (.inr (.inr ⟨rfl, by rw [hpc]; rfl⟩))
  · rw [hverdicts, hG.leaders_runCallback hpc, List.length_append, List.length_singleton,
      Finset.card_empty, runCallback_serial]
    exact hlen
  · rw [hverdicts, runCallback_goto, List.mem_append, List.mem_singleton, ← hG.error, ← hok]
    change (b.error || !ok) = true ↔ _
    cases b.error <;> cases ok <;> simp
  · intro g hg
    rw [hverdicts, List.length_append, List.length_singleton] at hg
    obtain ⟨hres, hends, -⟩ := hG.pending g (by omega)
    rw [hresults, hwait, hres, hends, if_neg (by omega), runCallback_serial]
    exact ⟨rfl, rfl, fun hlt => by omega⟩
  · intro g ok' hok'
    rw [hverdicts] at hok'
    rw [hresults, hwait, waiters_runCallback hpc]
    rcases getElem?_concat_cases hok' with ⟨hg, hbefore⟩ | ⟨rfl, hlast⟩
    · rw [if_neg (by omega), List.append_nil]
      exact hG.returns g ok' hbefore
    · obtain ⟨hres, hends, hcard⟩ := hG.pending _ le_rfl
      rw [hres, hends, if_pos rfl, ← hlast]
      refine ⟨rfl, ?_⟩
      have := hcard (by omega)
      simp only [List.nil_append, List.length_singleton]
      omega
  · intro e he g hew hfail
    rcases List.mem_append.mp he with he | he
    · rw [hverdicts] at hfail
      rcases getElem?_concat_cases hfail with ⟨-, hbefore⟩ | ⟨rfl, -⟩
      · exact hG.late e he g hew hbefore
      · exact absurd hew (hG.not_endsWait le_rfl he)
    · rw [List.mem_singleton.mp he] at hew
      exact absurd hew (hends g)

/-- A waiter takes the mutex after its generation was let through, and decides what it returns. -/
theorem Generations.ends (hG : Generations callback n hist b) {g₀ : ℕ} (hpc : b.pc t = .woken g₀)
    (hne : g₀ ≠ b.serial)
    (hstep : b.step callback t .test
      = some (b.goto t b.owner (.leaving (if b.error then -1 else 0)))) :
    Generations callback n (hist ++ [((b, t, .test) : BarrierEvent τ σ)])
      (b.goto t b.owner (.leaving (if b.error then -1 else 0))) := by
  have hmem : t ∈ waiters b g₀ := mem_waiters.mpr (by simp [hpc, WaitPc.waitsFor])
  have hlt : g₀ < b.serial := by
    by_contra hge
    rw [hG.future g₀ (by omega)] at hmem
    exact absurd hmem (Finset.notMem_empty t)
  have howner : b.owner = some t := (hG.owner t).mpr (by rw [hpc]; rfl)
  have hnone : leaders b = ∅ := hG.leaders_eq_empty fun u hu hlast => by
    obtain rfl := Option.some.inj (howner.symm.trans hu)
    rw [hpc] at hlast
    cases hlast
  have hlen := hG.length_verdicts hnone
  have hverdicts : verdicts callback (hist ++ [((b, t, .test) : BarrierEvent τ σ)])
      = verdicts callback hist := verdicts_concat_of_ne (by simp)
  have hew : ∀ g, EndsWait g (b, t, .test) ↔ g = g₀ := by
    intro g
    simp only [EndsWait, hpc, WaitPc.woken.injEq, true_and]
    exact ⟨fun h => h.1.symm, fun h => ⟨h.symm, h ▸ hne⟩⟩
  have hdecided : decided callback (b, t, .test) = some (g₀, readResult (b, t, .test)) := by
    rw [decided_eq hstep, hpc, goto_pc_self]
    rfl
  have hresults := results_concat_of_some hist hdecided
  have hwait : ∀ g, waitEnds g (hist ++ [((b, t, .test) : BarrierEvent τ σ)]) = waitEnds g hist
      ++ if g = g₀ then [(b, t, BarrierMove.test)] else [] := by
    intro g
    rw [waitEnds_concat]
    simp only [hew]
  have hwaiters : ∀ g, g ≠ g₀ →
      waiters (b.goto t b.owner (.leaving (if b.error then -1 else 0))) g = waiters b g := by
    intro g hg
    refine waiters_goto_same ?_
    simp [hpc, WaitPc.waitsFor, Ne.symm hg]
  have hcard : (waiters (b.goto t b.owner (.leaving (if b.error then -1 else 0))) g₀).card + 1
      = (waiters b g₀).card := by
    rw [waiters_goto_erase (by rfl), Finset.card_erase_add_one hmem]
  constructor
  · exact hG.initCount
  · rw [trips_concat (.inl (by simp))]
    exact hG.serial
  · change b.count + (waiters _ b.serial).card = n
    rw [hwaiters _ (Ne.symm hne), hG.count]
  · exact hG.pos
  · intro g hg
    have hg : b.serial < g := hg
    rw [hwaiters g (by omega), hG.future g hg]
  · exact hG.owner_goto (fun u => rfl) (.inr (.inr ⟨rfl, by rw [hpc]; rfl⟩))
  · rw [hverdicts, leaders_goto_same (by simp) (by simp [hpc])]
    exact hG.leader
  · rw [hverdicts]
    exact hG.error
  · intro g hg
    rw [hverdicts] at hg
    obtain ⟨hres, hends, hwaits⟩ := hG.pending g hg
    rw [hresults, hwait, if_neg (by omega), if_neg (by omega), hres, hends, hwaiters g (by omega)]
    exact ⟨rfl, rfl, hwaits⟩
  · intro g ok hok
    rw [hverdicts] at hok
    obtain ⟨hres, hall⟩ := hG.returns g ok hok
    rw [hresults, hwait]
    by_cases hg : g = g₀
    · subst hg
      rw [if_pos rfl, if_pos rfl, List.map_append, List.length_append, List.length_singleton]
      refine ⟨by rw [hres]; rfl, ?_⟩
      omega
    · rw [if_neg hg, if_neg hg, List.append_nil, List.append_nil, hwaiters g hg]
      exact ⟨hres, hall⟩
  · intro e he g hewait hfail
    rw [hverdicts] at hfail
    rcases List.mem_append.mp he with he | he
    · exact hG.late e he g hewait hfail
    · rw [List.mem_singleton.mp he]
      exact hG.error.mpr (List.mem_of_getElem? hfail)

/-- A step in which a thread keeps waiting, or keeps not waiting. -/
theorem Generations.moves (hG : Generations callback n hist b) (hm : m ≠ .enter)
    (hcallback : m ≠ .callback) (hends : ∀ g, ¬ EndsWait g (b, t, m)) (hp : ∀ r, p ≠ .leaving r)
    (hlast : p ≠ .last) (hlast' : b.pc t ≠ .last)
    (hwaits : ∀ g, p.waitsFor g = (b.pc t).waitsFor g)
    (howner : ∀ u, (b.goto t o p).owner = some u ↔ ((b.goto t o p).pc u).holds = true)
    (hstep : b.step callback t m = some (b.goto t o p)) :
    Generations callback n (hist ++ [(b, t, m)]) (b.goto t o p) := by
  refine hG.quiet ?_ hcallback hends (trips_concat (.inl hm)) rfl rfl rfl hG.pos ?_
    (fun g _ => waiters_goto_same (hwaits g)) (leaders_goto_same hlast hlast') howner
  · rw [decided_eq hstep, goto_pc_self]
    cases p with
    | leaving r => exact absurd rfl (hp r)
    | _ => rcases (b.pc t).generation b.serial with - | g <;> rfl
  · rw [waiters_goto_same (hwaits b.serial)]
    exact hG.count

/-- A thread that is not the last one goes to sleep. -/
theorem Generations.sleep (hG : Generations callback n hist b) (hpc : b.pc t = .locking)
    (hfree : b.owner = none) (hcount : 1 < b.count)
    (hstep : b.step callback t .enter
      = some ({ b with count := b.count - 1 }.goto t none (.sleeping b.serial false))) :
    Generations callback n (hist ++ [((b, t, .enter) : BarrierEvent τ σ)])
      ({ b with count := b.count - 1 }.goto t none (.sleeping b.serial false)) := by
  have hnot : t ∉ waiters b b.serial := by
    rw [mem_waiters, hpc]
    exact Bool.false_ne_true
  refine hG.quiet ?_ (by simp) (fun g => by simp [EndsWait])
    (trips_concat (.inr hcount.ne')) rfl rfl
    rfl (by change 0 < b.count - 1; omega) ?_ (fun g hg => ?_) ?_ ?_
  · rw [decided_eq hstep, goto_pc_self, hpc]
    rfl
  · rw [waiters_goto_insert (by simp [WaitPc.waitsFor])]
    change b.count - 1 + (insert t (waiters b b.serial)).card = n
    rw [Finset.card_insert_of_notMem hnot]
    have := hG.count
    omega
  · refine (waiters_goto_same ?_).trans rfl
    simp [hpc, WaitPc.waitsFor, Ne.symm hg]
  · exact (leaders_goto_same (by simp) (by simp [hpc])).trans rfl
  · exact hG.owner_goto (fun u => rfl) (.inr (.inl ⟨rfl, rfl, .inl hfree⟩))

/-- **One step.** -/
theorem Generations.step (hG : Generations callback n hist b) (hn : n < 2 ^ 32)
    (hlt : trips (hist ++ [(b, t, m)]) < 2 ^ 32) (h : b.step callback t m = some b') :
    Generations callback n (hist ++ [(b, t, m)]) b' := by
  have hcount := hG.count
  cases barrierStep_of_step hG.pos (by omega) h with
  | call hpc =>
    have hfalse : (b.pc t).holds = false ∧ b.pc t ≠ .last ∧
        ∀ g, (b.pc t).waitsFor g = false := by
      rcases hpc with hpc | ⟨r, hpc⟩ <;> simp [hpc, WaitPc.holds, WaitPc.waitsFor]
    refine hG.moves (by simp) (by simp) (fun g => by simp [EndsWait]) (by simp) (by simp) hfalse.2.1
      (fun g => ?_) (hG.owner_goto (fun u => rfl) (.inr (.inr ⟨rfl, ?_⟩))) h
    · rw [hfalse.2.2]
      rfl
    · rw [hfalse.1]
      rfl
  | last hpc hfree hone => exact hG.last hpc hfree hone hlt h
  | sleep hpc hfree hmore => exact hG.sleep hpc hfree hmore h
  | callback hpc => exact hG.called hpc h
  | wake hm hpc hfree =>
    have hne : m ≠ .enter ∧ m ≠ .callback ∧ m ≠ .test := by rcases hm with rfl | rfl <;> simp
    exact hG.moves hne.1 hne.2.1 (fun g hew => hne.2.2 hew.1) (by simp) (by simp) (by simp [hpc])
      (fun g => by rw [hpc]; rfl) (hG.owner_goto (fun u => rfl) (.inl ⟨rfl, rfl, .inl hfree⟩)) h
  | again hpc =>
    have howner : b.owner = some t := (hG.owner t).mpr (by rw [hpc]; rfl)
    refine hG.moves (by simp) (by simp) (fun g hew => ?_) (by simp) (by simp) (by simp [hpc])
      (fun g => by rw [hpc]; rfl)
      (hG.owner_goto (fun u => rfl) (.inr (.inl ⟨rfl, rfl, .inr howner⟩))) h
    exact hew.2.2 (WaitPc.woken.inj (hew.2.1.symm.trans hpc))
  | ends hpc hne => exact hG.ends hpc hne h
  | unlock hpc =>
    have howner : b.owner = some t := (hG.owner t).mpr (by rw [hpc]; rfl)
    exact hG.moves (by simp) (by simp) (fun g => by simp [EndsWait]) (by simp) (by simp)
      (by simp [hpc]) (fun g => by rw [hpc]; rfl)
      (hG.owner_goto (fun u => rfl) (.inr (.inl ⟨rfl, rfl, .inr howner⟩))) h

/-- A barrier that nobody has reached. -/
theorem generations_init {shared : σ} (h : sbBarrierInit n shared = some b) :
    Generations callback n [] b := by
  obtain ⟨hpos, h⟩ := Option.ite_none_left_eq_some.mp h
  obtain rfl := Option.some.inj h
  have hwaiters : ∀ g, waiters (⟨n, n, 0, false, none, shared, fun _ => .outside⟩ : Barrier τ σ) g
      = ∅ := fun g => by simp [waiters, WaitPc.waitsFor]
  constructor
  · rfl
  · rfl
  · rw [hwaiters]
    rfl
  · exact Nat.pos_of_ne_zero hpos
  · exact fun g _ => hwaiters g
  · exact fun t => by simp [WaitPc.holds]
  · simp [leaders, verdicts]
  · simp [verdicts]
  · exact fun g _ => ⟨rfl, rfl, fun hg => absurd hg (Nat.not_lt_zero g)⟩
  · exact fun g ok hok => by simp [verdicts] at hok
  · exact fun e he => absurd he List.not_mem_nil

/-- **Every run of fewer than 2 ^ 32 generations.** -/
theorem generations_of_run {shared : σ} {b₀ : Barrier τ σ}
    (hinit : sbBarrierInit n shared = some b₀) (hn : n < 2 ^ 32)
    (hrun : Run (barrierMove callback) b₀ hist b) (htrips : trips hist < 2 ^ 32) :
    Generations callback n hist b := by
  refine hrun.induction (fun hist b => trips hist < 2 ^ 32 → Generations callback n hist b)
    (fun _ => generations_init hinit) ?_ htrips
  intro hist b i b' hind hmove hlt
  have hle : trips hist ≤ trips (hist ++ [(b, i)]) := by
    rw [trips, trips, countP_concat]
    exact Nat.le_add_right _ _
  exact (hind (hle.trans_lt hlt)).step hn hlt hmove

/-- **The callers of every generation agree if and only if each waiter of a generation whose
callback succeeded returns before any callback has failed**: for every number of threads, every
sequence of callback results and every interleaving, over fewer than 2 ^ 32 generations. -/
theorem barrierAgreed_iff {shared : σ} {b₀ : Barrier τ σ} (hinit : sbBarrierInit n shared = some b₀)
    (hn : n < 2 ^ 32) (hrun : Run (barrierMove callback) b₀ hist b) (htrips : trips hist < 2 ^ 32) :
    BarrierAgreed callback n hist b ↔
      ∀ e ∈ hist, ∀ g, EndsWait g e → (verdicts callback hist)[g]? = some true →
        e.1.error = false := by
  have hG := generations_of_run hinit hn hrun htrips
  constructor
  · intro hagreed e he g hew hok
    obtain ⟨k, -, hresults⟩ := hagreed g true hok
    have hmem : readResult e ∈ (waitEnds g hist).map readResult :=
      List.mem_map_of_mem (List.mem_filter.mpr ⟨he, decide_eq_true hew⟩)
    rw [(hG.returns g true hok).1, List.cons.injEq] at hresults
    rw [hresults.2] at hmem
    have hzero := List.eq_of_mem_replicate hmem
    by_contra herror
    rw [readResult, if_pos (by simpa using herror)] at hzero
    cases hzero
  · intro hok g ok hverdict
    obtain ⟨hresults, hcard⟩ := hG.returns g ok hverdict
    refine ⟨(waitEnds g hist).length, ?_, ?_⟩
    · rw [hresults, List.length_cons, List.length_map] at hcard
      omega
    · rw [hresults]
      congr 1
      refine List.eq_replicate_iff.mpr ⟨List.length_map _, fun r hr => ?_⟩
      obtain ⟨e, he, rfl⟩ := List.mem_map.mp hr
      obtain ⟨he, hew⟩ := List.mem_filter.mp he
      have hew := of_decide_eq_true hew
      cases ok with
      | true => rw [readResult, hok e he g hew hverdict]; rfl
      | false => rw [readResult, hG.late e he g hew hverdict]; rfl

end Waiters

/-- Two threads meet once: the first sleeps, the second runs the callback. -/
def meetOnce : List (Bool × BarrierMove) :=
  [(false, .call), (false, .enter), (true, .call), (true, .enter), (true, .callback),
    (true, .unlock), (false, .wake), (false, .test), (false, .unlock)]

/-- A barrier for two threads. -/
def freshBarrier : Barrier Bool ℕ := ⟨2, 2, 0, false, none, 0, fun _ => .outside⟩

/-- A callback that always succeeds. -/
def succeedsAlways (k : ℕ) : ℤ × ℕ := (0, k + 1)

/-- Two threads meet twice. -/
theorem barrierAgreed_meetTwice :
    ∃ b₀ : Barrier Bool ℕ, sbBarrierInit 2 0 = some b₀ ∧ ∃ hist b,
      Run (barrierMove (some succeedsAlways)) b₀ hist b ∧
      hist.map Prod.snd = meetOnce ++ meetOnce ∧
      verdicts (some succeedsAlways) hist = [true, true] ∧
      BarrierAgreed (some succeedsAlways) 2 hist b := by
  obtain ⟨hist, b, hplay, hmoves, hverdicts, htrips, hnone⟩ : ∃ hist b,
      Run.play (barrierMove (some succeedsAlways)) freshBarrier (meetOnce ++ meetOnce)
        = some (hist, b) ∧ hist.map Prod.snd = meetOnce ++ meetOnce ∧
      verdicts (some succeedsAlways) hist = [true, true] ∧ trips hist = 2 ∧
      ∀ e ∈ hist, e.1.error = false :=
    ⟨_, _, rfl, rfl, by decide, by decide, by decide⟩
  have hrun := Run.of_play hplay
  refine ⟨freshBarrier, rfl, hist, b, hrun, hmoves, hverdicts, ?_⟩
  exact (barrierAgreed_iff rfl (by norm_num) hrun (by rw [htrips]; norm_num)).mpr
    fun e he _ _ _ => hnone e he

/-- A callback that fails the first time. -/
def failsFirst (k : ℕ) : ℤ × ℕ := (if k = 0 then 1 else 0, k + 1)

/-- **The callback of the first generation fails, that of the second does not**: the second time one
thread returns `SB_BARRIER_SERIAL_THREAD` and the other one a negative value. -/
theorem barrierDisagrees_afterFailure :
    ∃ b₀ : Barrier Bool ℕ, sbBarrierInit 2 0 = some b₀ ∧ ∃ hist b,
      Run (barrierMove (some failsFirst)) b₀ hist b ∧ hist.map Prod.snd = meetOnce ++ meetOnce ∧
      verdicts (some failsFirst) hist = [false, true] ∧
      results (some failsFirst) hist 0 = [-1, -1] ∧
      results (some failsFirst) hist 1 = [serialThread, -1] ∧
      ¬ BarrierAgreed (some failsFirst) 2 hist b := by
  obtain ⟨hist, b, hplay, hmoves, hverdicts, hfirst, hsecond⟩ : ∃ hist b,
      Run.play (barrierMove (some failsFirst)) freshBarrier (meetOnce ++ meetOnce)
        = some (hist, b) ∧ hist.map Prod.snd = meetOnce ++ meetOnce ∧
      verdicts (some failsFirst) hist = [false, true] ∧
      results (some failsFirst) hist 0 = [-1, -1] ∧
      results (some failsFirst) hist 1 = [serialThread, -1] :=
    ⟨_, _, rfl, rfl, by decide, by decide, by decide⟩
  refine ⟨freshBarrier, rfl, hist, b, Run.of_play hplay, hmoves, hverdicts, hfirst, hsecond,
    fun hagreed => ?_⟩
  obtain ⟨k, -, hresults⟩ := hagreed 1 true (by rw [hverdicts]; rfl)
  rw [hsecond, List.cons.injEq] at hresults
  have hmem : (-1 : ℤ) ∈ List.replicate k (otherRes true) := by
    rw [← hresults.2]
    exact List.mem_singleton_self _
  exact absurd (List.eq_of_mem_replicate hmem) (by decide)

end Sysbench.Threads
