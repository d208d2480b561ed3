import Sysbench.Machinery.MachineInt

/-!
# Threads/Barrier — `sb_barrier_t`

A barrier of `sb_barrier.c`, between threads of any type.  A move is what one thread does while it
holds the mutex, or between two such sections: a thread that is not the last one to come gives the
mutex back inside `pthread_cond_wait`, takes it again when it is woken, for no reason if need be,
and looks whether the generation has changed.  The last one runs the callback after the broadcast
and before it unlocks.

`OneShot` says where the threads of a barrier can be while each of them waits once: **gathering**,
**tripped** by the last one, **released** by the callback.
-/

namespace Sysbench.Threads

/-- Where a thread is in `sb_barrier_wait`. -/
inductive WaitPc
  | outside
  | locking
  | sleeping (serial : ℕ) (signalled : Bool)
  | woken (serial : ℕ)
  | last
  | leaving (res : ℤ)
  | returned (res : ℤ)
  deriving DecidableEq, Repr

/-- The thread has been counted. -/
def WaitPc.entered : WaitPc → Bool
  | .outside | .locking => false
  | _ => true

/-- `sb_barrier_t`: its counters are `unsigned int`; `owner` is the holder of its mutex and `shared`
what the callback works on. -/
structure Barrier (τ σ : Type) where
  initCount : ℕ
  count : ℕ
  serial : ℕ
  error : Bool
  owner : Option τ
  shared : σ
  pc : τ → WaitPc

variable {τ σ : Type} [DecidableEq τ]

/-- `SB_BARRIER_SERIAL_THREAD`. -/
def serialThread : ℤ := 1

/-- `sb_barrier_init`. -/
def sbBarrierInit (count : ℕ) (shared : σ) : Option (Barrier τ σ) :=
  if count = 0 then none
  else some ⟨count, count, 0, false, none, shared, fun _ => .outside⟩

/-- A step of one thread. -/
inductive BarrierMove
  | call
  | enter
  | callback
  | wake
  | spurious
  | test
  | unlock
  deriving DecidableEq, Repr

/-- `pthread_cond_broadcast`: every sleeper is told to wake up. -/
def signalAll (pc : τ → WaitPc) (t : τ) : WaitPc :=
  match pc t with
  | .sleeping serial _ => .sleeping serial true
  | p => p

/-- The thread goes on to `p`; it holds the mutex or it does not. -/
def Barrier.goto (b : Barrier τ σ) (t : τ) (owner : Option τ) (p : WaitPc) : Barrier τ σ :=
  { b with owner := owner, pc := Function.update b.pc t p }

/-- The next generation, with `pthread_cond_broadcast`. -/
def Barrier.trip (b : Barrier τ σ) : Barrier τ σ :=
  { b with serial := toU32 (b.serial + 1), count := b.initCount, pc := signalAll b.pc }

/-- The section up to the callback, or up to `pthread_cond_wait`. -/
def Barrier.enter (b : Barrier τ σ) (t : τ) : Barrier τ σ :=
  let count := toU32 ((b.count : ℤ) - 1)
  if count = 0 then b.trip.goto t (some t) .last
  else { b with count := count }.goto t none (.sleeping b.serial false)

/-- The callback, if there is one, and its result. -/
def Barrier.runCallback (callback : Option (σ → ℤ × σ)) (b : Barrier τ σ) (t : τ) : Barrier τ σ :=
  match callback with
  | none => b.goto t b.owner (.leaving serialThread)
  | some f =>
    let r := f b.shared
    if r.1 ≠ 0 then { b with shared := r.2, error := true }.goto t b.owner (.leaving (-1))
    else { b with shared := r.2 }.goto t b.owner (.leaving serialThread)

/-- The loop condition after `pthread_cond_wait`. -/
def Barrier.test (b : Barrier τ σ) (t : τ) (serial : ℕ) : Barrier τ σ :=
  if serial = b.serial then b.goto t none (.sleeping serial false)
  else b.goto t b.owner (.leaving (if b.error then -1 else 0))

/-- A step of thread `t`, if it can make it. -/
def Barrier.step (callback : Option (σ → ℤ × σ)) (b : Barrier τ σ) (t : τ) :
    BarrierMove → Option (Barrier τ σ)
  | .call =>
    match b.pc t with
    | .outside | .returned _ => some (b.goto t b.owner .locking)
    | _ => none
  | .enter => if b.pc t = .locking ∧ b.owner = none then some (b.enter t) else none
  | .callback => if b.pc t = .last then some (b.runCallback callback t) else none
  | .wake =>
    match b.pc t with
    | .sleeping serial true =>
      if b.owner = none then some (b.goto t (some t) (.woken serial)) else none
    | _ => none
  | .spurious =>
    match b.pc t with
    | .sleeping serial _ =>
      if b.owner = none then some (b.goto t (some t) (.woken serial)) else none
    | _ => none
  | .test =>
    match b.pc t with
    | .woken serial => some (b.test t serial)
    | _ => none
  | .unlock =>
    match b.pc t with
    | .leaving res => some (b.goto t none (.returned res))
    | _ => none

/-! ## Waiting once -/

section OneShot

variable {b b' : Barrier τ σ} {t u : τ} {o : Option τ} {p : WaitPc}

@[simp] theorem goto_pc_self : (b.goto t o p).pc t = p := Function.update_self ..

theorem goto_pc_of_ne (h : u ≠ t) : (b.goto t o p).pc u = b.pc u := Function.update_of_ne h ..

@[simp] theorem goto_owner : (b.goto t o p).owner = o := rfl

/-- The last thread to be counted. -/
theorem enter_last (hcount : b.count = 1) : b.enter t = b.trip.goto t (some t) .last := by
  simp [Barrier.enter, hcount, toU32]

/-- Any other thread. -/
theorem enter_sleep (hcount : 1 < b.count) (hlt : b.count < 2 ^ 32) :
    b.enter t = { b with count := b.count - 1 }.goto t none (.sleeping b.serial false) := by
  have hdec : toU32 ((b.count : ℤ) - 1) = b.count - 1 := by unfold toU32; omega
  simp only [Barrier.enter, hdec]
  rw [if_neg (by omega)]

variable [Fintype τ]

/-- The threads that have not been counted. -/
def missing (b : Barrier τ σ) : Finset τ := Finset.univ.filter fun t => (b.pc t).entered = false

/-- **Gathering**: some thread has not come yet; those that have sleep, or look whether they should
still sleep. -/
structure Gathering (b : Barrier τ σ) : Prop where
  serial : b.serial = 0
  error : b.error = false
  count : b.count = (missing b).card
  pos : 0 < b.count
  pcs : ∀ t, b.pc t = .outside ∨ b.pc t = .locking ∨ b.pc t = .sleeping 0 false ∨ b.pc t = .woken 0
  owner : ∀ t, b.owner = some t ↔ b.pc t = .woken 0

/-- **Tripped**: everybody has come; `leader` came last and is about to run the callback. -/
structure Tripped (b : Barrier τ σ) (leader : τ) : Prop where
  serial : b.serial = 1
  error : b.error = false
  owner : b.owner = some leader
  last : b.pc leader = .last
  others : ∀ t, t ≠ leader → b.pc t = .sleeping 0 true

/-- What the leader returns. -/
def leaderRes (ok : Bool) : ℤ := if ok then serialThread else -1

/-- What everybody else returns. -/
def otherRes (ok : Bool) : ℤ := if ok then 0 else -1

/-- **Released**: the callback has run, with success or not; everybody is on the way out. -/
structure Released (b : Barrier τ σ) (leader : τ) (ok : Bool) : Prop where
  serial : b.serial = 1
  error : b.error = !ok
  leads : b.pc leader = .leaving (leaderRes ok) ∨ b.pc leader = .returned (leaderRes ok)
  others : ∀ t, t ≠ leader → b.pc t = .sleeping 0 true ∨ b.pc t = .woken 0 ∨
    b.pc t = .leaving (otherRes ok) ∨ b.pc t = .returned (otherRes ok)
  owner : ∀ t, b.owner = some t ↔ b.pc t = .woken 0 ∨ ∃ r, b.pc t = .leaving r

omit [DecidableEq τ] in
theorem mem_missing : t ∈ missing b ↔ (b.pc t).entered = false := by simp [missing]

omit [DecidableEq τ] in
/-- A barrier for all threads, which nobody has reached. -/
theorem gathering_init [Nonempty τ] {shared : σ} {count : ℕ}
    (h : sbBarrierInit count shared = some b) (hcount : count = Fintype.card τ) : Gathering b := by
  unfold sbBarrierInit at h
  split_ifs at h with hzero
  cases h
  have hall : missing (⟨count, count, 0, false, none, shared, fun _ => .outside⟩ : Barrier τ σ)
      = Finset.univ := by simp [missing, WaitPc.entered]
  exact ⟨rfl, rfl, by rw [hall, Finset.card_univ, hcount], Nat.pos_of_ne_zero hzero,
    fun _ => .inl rfl, fun _ => by simp⟩

/-- A move that leaves `t` as much counted as it was. -/
theorem missing_goto (h : p.entered = (b.pc t).entered) : missing (b.goto t o p) = missing b := by
  ext u
  rw [mem_missing, mem_missing]
  by_cases hu : u = t
  · rw [hu, goto_pc_self, h]
  · rw [goto_pc_of_ne hu]

/-- A move inside the gathering that does not count anybody. -/
theorem Gathering.goto (h : Gathering b) (hp : p.entered = (b.pc t).entered)
    (hpc : p = .outside ∨ p = .locking ∨ p = .sleeping 0 false ∨ p = .woken 0)
    (howner : ∀ u, o = some u ↔ (b.goto t o p).pc u = .woken 0) : Gathering (b.goto t o p) where
  serial := h.serial
  error := h.error
  count := (missing_goto hp).symm ▸ h.count
  pos := h.pos
  pcs u := by
    by_cases hu : u = t
    · rwa [hu, goto_pc_self]
    · rw [goto_pc_of_ne hu]
      exact h.pcs u
  owner := howner

omit [DecidableEq τ] in
/-- Only the thread that holds the mutex is awake while the others gather. -/
theorem Gathering.owner_of_woken (h : Gathering b) (ht : b.pc t = .woken 0) (hu : u ≠ t) :
    b.pc u ≠ .woken 0 := by
  intro hw
  have := (h.owner u).mpr hw
  rw [(h.owner t).mpr ht] at this
  exact hu (Option.some.inj this).symm

omit [DecidableEq τ] in
theorem Gathering.count_lt (h : Gathering b) (hcard : Fintype.card τ < 2 ^ 32) :
    b.count < 2 ^ 32 :=
  (h.count ▸ Finset.card_le_univ _ : b.count ≤ Fintype.card τ).trans_lt hcard

/-- The last thread to come trips the barrier: the others have all come, and all sleep. -/
theorem Gathering.trip (h : Gathering b) (ht : b.pc t = .locking) (ho : b.owner = none)
    (hcount : b.count = 1) : Tripped (b.enter t) t := by
  have hmem : t ∈ missing b := mem_missing.mpr (by rw [ht]; rfl)
  have hone : missing b = {t} := by
    obtain ⟨a, ha⟩ := Finset.card_eq_one.mp (h.count.symm.trans hcount)
    rw [ha, Finset.mem_singleton] at hmem
    rw [ha, hmem]
  rw [enter_last hcount]
  refine ⟨?_, h.error, rfl, goto_pc_self, fun u hu => ?_⟩
  · simp [Barrier.goto, Barrier.trip, h.serial, toU32]
  rw [goto_pc_of_ne hu]
  have hin : (b.pc u).entered ≠ false := fun hf =>
    hu (Finset.mem_singleton.mp (hone ▸ mem_missing.mpr hf))
  rcases h.pcs u with hp | hp | hp | hp
  · simp [hp, WaitPc.entered] at hin
  · simp [hp, WaitPc.entered] at hin
  · simp [Barrier.trip, signalAll, hp]
  · simp [(h.owner u).mpr hp] at ho

/-- A thread that is not the last one goes to sleep. -/
theorem Gathering.sleep (h : Gathering b) (hcard : Fintype.card τ < 2 ^ 32)
    (ht : b.pc t = .locking) (ho : b.owner = none) (hcount : b.count ≠ 1) :
    Gathering (b.enter t) := by
  have hpos := h.pos
  have henter : b.enter t = { b with count := b.count - 1 }.goto t none (.sleeping 0 false) := by
    rw [enter_sleep (by omega) (h.count_lt hcard), h.serial]
  have hmem : t ∈ missing b := mem_missing.mpr (by rw [ht]; rfl)
  have hmissing : missing (b.enter t) = (missing b).erase t := by
    ext u
    rw [henter, Finset.mem_erase, mem_missing, mem_missing]
    by_cases hu : u = t
    · simp [hu, WaitPc.entered]
    · rw [goto_pc_of_ne hu]
      simp [hu]
  have hcount' : (b.enter t).count = (missing (b.enter t)).card := by
    rw [hmissing, Finset.card_erase_of_mem hmem, ← h.count, henter]
    rfl
  rw [henter] at hcount' ⊢
  refine ⟨h.serial, h.error, hcount', ?_, fun u => ?_, fun u => ?_⟩
  · simp only [Barrier.goto]
    omega
  · by_cases hu : u = t
    · simp [hu]
    · rw [goto_pc_of_ne hu]
      exact h.pcs u
  · rw [goto_owner]
    by_cases hu : u = t
    · simp [hu]
    · rw [goto_pc_of_ne hu, ← h.owner u, ho]

variable {callback : Option (σ → ℤ × σ)} {m : BarrierMove}

/-- **A step while the threads gather** keeps them gathering, or trips the barrier. -/
theorem Gathering.step (h : Gathering b) (hcard : Fintype.card τ < 2 ^ 32)
    (hs : b.step callback t m = some b') :
    m ≠ .callback ∧ b'.shared = b.shared ∧ (Gathering b' ∨ m = .enter ∧ Tripped b' t) := by
  cases m with
  | call =>
    rcases h.pcs t with hp | hp | hp | hp <;> simp only [Barrier.step, hp, reduceCtorEq] at hs
    cases hs
    refine ⟨by simp, rfl, .inl (h.goto (by rw [hp]; rfl) (by simp) fun u => ?_)⟩
    by_cases hu : u = t
    · simp [hu, h.owner t, hp]
    · rw [goto_pc_of_ne hu, h.owner u]
  | enter =>
    simp only [Barrier.step, Option.ite_none_right_eq_some, Option.some.injEq] at hs
    obtain ⟨⟨ht, ho⟩, rfl⟩ := hs
    have hshared : (b.enter t).shared = b.shared := by
      unfold Barrier.enter
      simp only
      split <;> rfl
    by_cases hcount : b.count = 1
    · exact ⟨by simp, hshared, .inr ⟨rfl, h.trip ht ho hcount⟩⟩
    · exact ⟨by simp, hshared, .inl (h.sleep hcard ht ho hcount)⟩
  | callback =>
    rcases h.pcs t with hp | hp | hp | hp <;> simp [Barrier.step, hp] at hs
  | wake =>
    rcases h.pcs t with hp | hp | hp | hp <;> simp [Barrier.step, hp] at hs
  | spurious =>
    rcases h.pcs t with hp | hp | hp | hp <;> simp only [Barrier.step, hp, reduceCtorEq] at hs
    simp only [Option.ite_none_right_eq_some, Option.some.injEq] at hs
    obtain ⟨ho, rfl⟩ := hs
    refine ⟨by simp, rfl, .inl (h.goto (by rw [hp]; rfl) (by simp) fun u => ?_)⟩
    by_cases hu : u = t
    · simp [hu]
    · rw [goto_pc_of_ne hu, ← h.owner u, ho]
      simp [Ne.symm hu]
  | test =>
    rcases h.pcs t with hp | hp | hp | hp <;> simp only [Barrier.step, hp, reduceCtorEq] at hs
    rw [Barrier.test, if_pos h.serial.symm] at hs
    cases hs
    refine ⟨by simp, rfl, .inl (h.goto (by rw [hp]; rfl) (by simp) fun u => ?_)⟩
    by_cases hu : u = t
    · simp [hu]
    · rw [goto_pc_of_ne hu]
      simpa using h.owner_of_woken hp hu
  | unlock =>
    rcases h.pcs t with hp | hp | hp | hp <;> simp [Barrier.step, hp] at hs

variable {leader : τ} {ok : Bool}

/-- The callback's answer, as the barrier takes it, and what it leaves. -/
def callbackOk (callback : Option (σ → ℤ × σ)) (shared : σ) : Bool × σ :=
  match callback with
  | none => (true, shared)
  | some f => ((f shared).1 = 0, (f shared).2)

omit [Fintype τ] in
/-- The callback changes the leader's position and nobody else's. -/
theorem runCallback_eq (he : b.error = false) :
    b.runCallback callback t
      = { b with
          shared := (callbackOk callback b.shared).2
          error := !(callbackOk callback b.shared).1 }.goto t b.owner
        (.leaving (leaderRes (callbackOk callback b.shared).1)) := by
  unfold Barrier.runCallback callbackOk
  cases callback with
  | none => simp [leaderRes, ← he]
  | some f =>
    by_cases hf : (f b.shared).1 = 0
    · simp [hf, leaderRes, ← he]
    · simp [hf, leaderRes]

omit [Fintype τ] in
/-- **A tripped barrier can only run the callback**, which releases it. -/
theorem Tripped.step (h : Tripped b leader) (hs : b.step callback t m = some b') :
    m = .callback ∧ b'.shared = (callbackOk callback b.shared).2 ∧
      Released b' leader (callbackOk callback b.shared).1 := by
  by_cases ht : t = leader
  · subst ht
    cases m <;> simp [Barrier.step, h.last] at hs
    rw [runCallback_eq h.error] at hs
    subst hs
    refine ⟨rfl, rfl, h.serial, rfl, .inl goto_pc_self, fun u hu => ?_, fun u => ?_⟩
    · rw [goto_pc_of_ne hu]
      exact .inl (h.others u hu)
    · rw [goto_owner, h.owner]
      by_cases hu : u = t
      · simp [hu]
      · rw [goto_pc_of_ne hu]
        simp [h.others u hu, Ne.symm hu]
  · have hp := h.others t ht
    cases m <;> simp [Barrier.step, hp, h.owner] at hs

omit [Fintype τ] in
/-- A move of one thread on its way out. -/
theorem Released.goto (h : Released b leader ok)
    (hlead : t = leader → p = .leaving (leaderRes ok) ∨ p = .returned (leaderRes ok))
    (hother : t ≠ leader → p = .sleeping 0 true ∨ p = .woken 0 ∨ p = .leaving (otherRes ok) ∨
      p = .returned (otherRes ok))
    (howner : ∀ u, o = some u ↔ (b.goto t o p).pc u = .woken 0 ∨
      ∃ r, (b.goto t o p).pc u = .leaving r) : Released (b.goto t o p) leader ok where
  serial := h.serial
  error := h.error
  leads := by
    by_cases hl : leader = t
    · rw [hl, goto_pc_self]
      exact hlead hl.symm
    · rw [goto_pc_of_ne hl]
      exact h.leads
  others u hu := by
    by_cases hut : u = t
    · rw [hut, goto_pc_self]
      exact hother (hut ▸ hu)
    · rw [goto_pc_of_ne hut]
      exact h.others u hu
  owner := howner

omit [DecidableEq τ] [Fintype τ] in
/-- Only one thread at a time is on its way out with the mutex. -/
theorem Released.owner_unique (h : Released b leader ok)
    (ht : b.pc t = .woken 0 ∨ ∃ r, b.pc t = .leaving r) (hu : u ≠ t) :
    ¬ (b.pc u = .woken 0 ∨ ∃ r, b.pc u = .leaving r) := by
  intro hw
  have := (h.owner u).mpr hw
  rw [(h.owner t).mpr ht] at this
  exact hu (Option.some.inj this).symm

omit [Fintype τ] in
/-- A sleeper takes the mutex. -/
theorem Released.wake (h : Released b leader ok) (ho : b.owner = none)
    (hp : b.pc t = .sleeping 0 true) : Released (b.goto t (some t) (.woken 0)) leader ok := by
  have hne : t ≠ leader := by
    rintro rfl
    rcases h.leads with hl | hl <;> rw [hl] at hp <;> cases hp
  refine h.goto (fun ht => (hne ht).elim) (fun _ => .inr (.inl rfl)) fun u => ?_
  by_cases hu : u = t
  · simp [hu]
  · rw [goto_pc_of_ne hu, ← h.owner u, ho]
    simp [Ne.symm hu]

omit [Fintype τ] in
/-- **A step of a released barrier** keeps it released. -/
theorem Released.step (h : Released b leader ok) (hm : m ≠ .call)
    (hs : b.step callback t m = some b') :
    m ≠ .callback ∧ b'.shared = b.shared ∧ Released b' leader ok := by
  have hcases : b.pc t = .sleeping 0 true ∨ b.pc t = .woken 0 ∨
      (∃ r, b.pc t = .leaving r ∧ (t = leader → r = leaderRes ok) ∧
        (t ≠ leader → r = otherRes ok)) ∨ ∃ r, b.pc t = .returned r := by
    by_cases ht : t = leader
    · subst ht
      rcases h.leads with hp | hp
      · exact .inr (.inr (.inl ⟨_, hp, fun _ => rfl, fun hne => (hne rfl).elim⟩))
      · exact .inr (.inr (.inr ⟨_, hp⟩))
    · rcases h.others t ht with hp | hp | hp | hp
      · exact .inl hp
      · exact .inr (.inl hp)
      · exact .inr (.inr (.inl ⟨_, hp, fun he => (ht he).elim, fun _ => rfl⟩))
      · exact .inr (.inr (.inr ⟨_, hp⟩))
  rcases hcases with hp | hp | ⟨r, hp, hlead, hother⟩ | ⟨r, hp⟩
  · cases m <;> simp [Barrier.step, hp] at hs
    · obtain ⟨ho, rfl⟩ := hs
      exact ⟨by simp, rfl, h.wake ho hp⟩
    · obtain ⟨ho, rfl⟩ := hs
      exact ⟨by simp, rfl, h.wake ho hp⟩
  · cases m <;> simp [Barrier.step, hp] at hs
    -- the generation has changed, so the loop ends
    have htest : b.test t 0 = b.goto t b.owner (.leaving (otherRes ok)) := by
      rw [Barrier.test, if_neg (by rw [h.serial]; decide), h.error]
      cases ok <;> rfl
    rw [htest] at hs
    subst hs
    have hne : t ≠ leader := by
      rintro rfl
      rcases h.leads with hl | hl <;> rw [hl] at hp <;> cases hp
    refine ⟨by simp, rfl,
      h.goto (fun ht => (hne ht).elim) (fun _ => .inr (.inr (.inl rfl))) fun u => ?_⟩
    by_cases hu : u = t
    · simp [hu, (h.owner t).mpr (.inl hp)]
    · rw [goto_pc_of_ne hu]
      exact h.owner u
  · cases m <;> simp [Barrier.step, hp] at hs
    subst hs
    refine ⟨by simp, rfl, h.goto (fun ht => .inr (by rw [hlead ht])) (fun ht =>
      .inr (.inr (.inr (by rw [hother ht])))) fun u => ?_⟩
    by_cases hu : u = t
    · simp [hu]
    · rw [goto_pc_of_ne hu]
      exact iff_of_false (by simp) (h.owner_unique (.inr ⟨r, hp⟩) hu)
  · cases m <;> simp [Barrier.step, hp] at hs hm

omit [Fintype τ] in
/-- **What a step other than a call moves**: a thread inside the barrier, and nobody else but for
the signal. -/
theorem step_pc (hm : m ≠ .call) (hs : b.step callback t m = some b') :
    b.pc t ≠ .outside ∧ b'.pc t ≠ .outside ∧ (∀ r, b.pc t ≠ .returned r) ∧
      ∀ u, u ≠ t → b'.pc u = b.pc u ∨
        ∃ serial g, b.pc u = .sleeping serial g ∧ b'.pc u = .sleeping serial true := by
  cases m with
  | call => exact (hm rfl).elim
  | enter =>
    simp only [Barrier.step, Option.ite_none_right_eq_some, Option.some.injEq] at hs
    obtain ⟨⟨ht, -⟩, rfl⟩ := hs
    unfold Barrier.enter
    simp only
    split_ifs
    · refine ⟨by simp [ht], by simp, by simp [ht], fun u hu => ?_⟩
      rw [goto_pc_of_ne hu]
      cases hp : b.pc u <;> simp [Barrier.trip, signalAll, hp]
    · exact ⟨by simp [ht], by simp, by simp [ht], fun u hu => .inl (goto_pc_of_ne hu)⟩
  | callback =>
    simp only [Barrier.step, Option.ite_none_right_eq_some, Option.some.injEq] at hs
    obtain ⟨ht, rfl⟩ := hs
    unfold Barrier.runCallback
    cases callback with
    | none => exact ⟨by simp [ht], by simp, by simp [ht], fun u hu => .inl (goto_pc_of_ne hu)⟩
    | some f =>
      simp only
      split_ifs
      · exact ⟨by simp [ht], by simp, by simp [ht], fun u hu => .inl (goto_pc_of_ne hu)⟩
      · exact ⟨by simp [ht], by simp, by simp [ht], fun u hu => .inl (goto_pc_of_ne hu)⟩
  | wake =>
    cases hp : b.pc t <;> simp only [Barrier.step, hp, reduceCtorEq] at hs
    split at hs
    · simp only [Option.ite_none_right_eq_some, Option.some.injEq] at hs
      obtain ⟨-, rfl⟩ := hs
      exact ⟨by simp, by simp, by simp, fun u hu => .inl (goto_pc_of_ne hu)⟩
    · cases hs
  | spurious =>
    cases hp : b.pc t <;> simp only [Barrier.step, hp, reduceCtorEq] at hs
    simp only [Option.ite_none_right_eq_some, Option.some.injEq] at hs
    obtain ⟨-, rfl⟩ := hs
    exact ⟨by simp, by simp, by simp, fun u hu => .inl (goto_pc_of_ne hu)⟩
  | test =>
    cases hp : b.pc t <;> simp only [Barrier.step, hp, reduceCtorEq, Option.some.injEq] at hs
    subst hs
    unfold Barrier.test
    split
    · exact ⟨by simp, by simp, by simp, fun u hu => .inl (goto_pc_of_ne hu)⟩
    · exact ⟨by simp, by simp, by simp, fun u hu => .inl (goto_pc_of_ne hu)⟩
  | unlock =>
    cases hp : b.pc t <;> simp only [Barrier.step, hp, reduceCtorEq, Option.some.injEq] at hs
    subst hs
    exact ⟨by simp, by simp, by simp, fun u hu => .inl (goto_pc_of_ne hu)⟩

end OneShot

end Sysbench.Threads
