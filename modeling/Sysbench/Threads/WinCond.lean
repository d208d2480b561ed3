import Sysbench.Machinery.Parties
import Sysbench.Machinery.Traces

/-!
# Threads/WinCond — the condition variable of the Windows port

`sb_win.c` makes a condition variable of three events and a counter.  A waiter counts itself in
before it gives the mutex back, sleeps until one of the two events is set, and counts itself out
before it takes the mutex again.  `SIGNAL` resets itself when one sleeper takes it; `BROADCAST`
stays set until the last waiter, finding that a broadcast has woken it, resets it and opens the
**block gate** again, which a broadcast closes before it sets the event.

A run is any interleaving of any threads.  A step is one access to what other threads can see: the
counter is read and written under `lock_waiting` only, but the events are also seen without it, so a
section that moves two of them is two steps.
-/

namespace Sysbench.Threads

/-- What ended a sleep in `WaitForMultipleObjects`. -/
inductive WakeResult
  | signal
  | broadcast
  | timeout
  deriving DecidableEq, Repr

/-- Where a thread is: `outside` with what its last call returned, or before the named step of
`pthread_cond_timedwait` (with a time or without), `pthread_cond_signal` or
`pthread_cond_broadcast`. -/
inductive CondPc
  | outside (res : ℤ)
  | gate (timed : Bool)
  | counting (timed : Bool)
  | releasing (timed : Bool)
  | asleep (timed : Bool)
  | uncounting (result : WakeResult)
  | reopening
  | relocking (result : WakeResult)
  | signalling
  | announcing
  | opening
  deriving DecidableEq, Repr

/-- `pthread_cond_t` with the mutex of its waiters: `lockWaiting` and `mutex` are the holders of the
two critical sections. -/
structure WinCond (τ : Type) where
  waiting : ℤ
  lockWaiting : Option τ
  signal : Bool
  broadcast : Bool
  block : Bool
  mutex : Option τ
  pc : τ → CondPc

variable {τ : Type} [DecidableEq τ]

/-- `pthread_cond_init`. -/
def pthreadCondInit : WinCond τ := ⟨0, none, false, false, true, none, fun _ => .outside 0⟩

/-- `ETIMEDOUT` of `sb_win.h`. -/
def etimedout : ℤ := 2204

/-- What `pthread_cond_timedwait` returns. -/
def WakeResult.code : WakeResult → ℤ
  | .timeout => etimedout
  | _ => 0

/-- A move of a thread: it takes or gives back the mutex, calls one of the functions (`wait false`
is `pthread_cond_wait`), goes on in the one it has called, or its time is over. -/
inductive CondMove
  | lock
  | unlock
  | wait (timed : Bool)
  | signal
  | broadcast
  | go
  | expire
  deriving DecidableEq, Repr

namespace WinCond

/-- The thread goes on to `p`. -/
def goto (c : WinCond τ) (t : τ) (p : CondPc) : WinCond τ :=
  { c with pc := Function.update c.pc t p }

/-- The section that counts a waiter out: the last one, if a broadcast has woken it, closes the
broadcast gate and keeps `lock_waiting` until it has opened the block gate. -/
def countOut (c : WinCond τ) (t : τ) (result : WakeResult) : WinCond τ :=
  let waiting := c.waiting - 1
  if waiting = 0 ∧ result = .broadcast then
    { c with waiting := waiting, broadcast := false, lockWaiting := some t }.goto t .reopening
  else { c with waiting := waiting }.goto t (.relocking result)

/-- The next step of the function that a thread has called, if it can make it. -/
def go (c : WinCond τ) (t : τ) : Option (WinCond τ) :=
  match c.pc t with
  | .outside _ => none
  | .gate timed => if c.block then some (c.goto t (.counting timed)) else none
  | .counting timed =>
    if c.lockWaiting = none then
      some ({ c with waiting := c.waiting + 1 }.goto t (.releasing timed))
    else none
  | .releasing timed => some ({ c with mutex := none }.goto t (.asleep timed))
  | .asleep _ =>
    -- the lowest index of the two events wins
    if c.signal then some ({ c with signal := false }.goto t (.uncounting .signal))
    else if c.broadcast then some (c.goto t (.uncounting .broadcast))
    else none
  | .uncounting result => if c.lockWaiting = none then some (c.countOut t result) else none
  | .reopening =>
    some ({ c with block := true, lockWaiting := none }.goto t (.relocking .broadcast))
  | .relocking result =>
    if c.mutex = none then some ({ c with mutex := some t }.goto t (.outside result.code)) else none
  | .signalling =>
    if c.lockWaiting = none then
      some ({ c with signal := c.signal || decide (0 < c.waiting) }.goto t (.outside 0))
    else none
  | .announcing =>
    if c.lockWaiting = none then
      if 0 < c.waiting then
        some ({ c with block := false, lockWaiting := some t }.goto t .opening)
      else some (c.goto t (.outside 0))
    else none
  | .opening => some ({ c with broadcast := true, lockWaiting := none }.goto t (.outside 0))

/-- A call of a thread that is outside. -/
def call (c : WinCond τ) (t : τ) (p : CondPc) : Option (WinCond τ) :=
  match c.pc t with
  | .outside _ => some (c.goto t p)
  | _ => none

/-- A move of thread `i.1`, if it can make it.  A waiter holds the mutex when it calls. -/
def move (c : WinCond τ) (i : τ × CondMove) : Option (WinCond τ) :=
  match i.2 with
  | .lock =>
    if c.mutex = none then ({ c with mutex := some i.1 } : WinCond τ).call i.1 (c.pc i.1) else none
  | .unlock =>
    if c.mutex = some i.1 then ({ c with mutex := none } : WinCond τ).call i.1 (c.pc i.1) else none
  | .wait timed => if c.mutex = some i.1 then c.call i.1 (.gate timed) else none
  | .signal => c.call i.1 .signalling
  | .broadcast => c.call i.1 .announcing
  | .go => c.go i.1
  | .expire => if c.pc i.1 = .asleep true then some (c.goto i.1 (.uncounting .timeout)) else none

end WinCond

/-! ## What a step can do -/

variable {c c' : WinCond τ} {t u : τ} {p : CondPc} {m : CondMove}

/-- **The steps**, each with what it needs of the state before it. -/
inductive CondStep (c : WinCond τ) (t : τ) : CondMove → WinCond τ → Prop
  | lock {res : ℤ} (hpc : c.pc t = .outside res) (hfree : c.mutex = none) :
      CondStep c t .lock ({ c with mutex := some t }.goto t (.outside res))
  | unlock {res : ℤ} (hpc : c.pc t = .outside res) (hown : c.mutex = some t) :
      CondStep c t .unlock ({ c with mutex := none }.goto t (.outside res))
  | wait {res : ℤ} {timed : Bool} (hpc : c.pc t = .outside res) (hown : c.mutex = some t) :
      CondStep c t (.wait timed) (c.goto t (.gate timed))
  | signal {res : ℤ} (hpc : c.pc t = .outside res) : CondStep c t .signal (c.goto t .signalling)
  | broadcast {res : ℤ} (hpc : c.pc t = .outside res) :
      CondStep c t .broadcast (c.goto t .announcing)
  | pass {timed : Bool} (hpc : c.pc t = .gate timed) (hopen : c.block = true) :
      CondStep c t .go (c.goto t (.counting timed))
  | count {timed : Bool} (hpc : c.pc t = .counting timed) (hlock : c.lockWaiting = none) :
      CondStep c t .go ({ c with waiting := c.waiting + 1 }.goto t (.releasing timed))
  | release {timed : Bool} (hpc : c.pc t = .releasing timed) :
      CondStep c t .go ({ c with mutex := none }.goto t (.asleep timed))
  | wakeSignal {timed : Bool} (hpc : c.pc t = .asleep timed) (hset : c.signal = true) :
      CondStep c t .go ({ c with signal := false }.goto t (.uncounting .signal))
  | wakeBroadcast {timed : Bool} (hpc : c.pc t = .asleep timed) (hunset : c.signal = false)
      (hset : c.broadcast = true) : CondStep c t .go (c.goto t (.uncounting .broadcast))
  | outLast (hpc : c.pc t = .uncounting .broadcast) (hlock : c.lockWaiting = none)
      (hlast : c.waiting = 1) :
      CondStep c t .go
        ({ c with waiting := 0, broadcast := false, lockWaiting := some t }.goto t .reopening)
  | out {result : WakeResult} (hpc : c.pc t = .uncounting result) (hlock : c.lockWaiting = none)
      (hmore : c.waiting = 1 → result ≠ .broadcast) :
      CondStep c t .go ({ c with waiting := c.waiting - 1 }.goto t (.relocking result))
  | reopen (hpc : c.pc t = .reopening) :
      CondStep c t .go
        ({ c with block := true, lockWaiting := none }.goto t (.relocking .broadcast))
  | relock {result : WakeResult} (hpc : c.pc t = .relocking result) (hfree : c.mutex = none) :
      CondStep c t .go ({ c with mutex := some t }.goto t (.outside result.code))
  | signalled (hpc : c.pc t = .signalling) (hlock : c.lockWaiting = none) :
      CondStep c t .go
        ({ c with signal := c.signal || decide (0 < c.waiting) }.goto t (.outside 0))
  | close (hpc : c.pc t = .announcing) (hlock : c.lockWaiting = none) (hpos : 0 < c.waiting) :
      CondStep c t .go ({ c with block := false, lockWaiting := some t }.goto t .opening)
  | unheard (hpc : c.pc t = .announcing) (hlock : c.lockWaiting = none) (hnone : ¬ 0 < c.waiting) :
      CondStep c t .go (c.goto t (.outside 0))
  | opened (hpc : c.pc t = .opening) :
      CondStep c t .go ({ c with broadcast := true, lockWaiting := none }.goto t (.outside 0))
  | expire (hpc : c.pc t = .asleep true) :
      CondStep c t .expire (c.goto t (.uncounting .timeout))

theorem call_eq_some (h : c.call t p = some c') :
    ∃ res, c.pc t = .outside res ∧ c' = c.goto t p := by
  unfold WinCond.call at h
  split at h
  next res hpc => exact ⟨res, hpc, (Option.some.inj h).symm⟩
  next => cases h

/-- The counting out of a waiter. -/
theorem condStep_countOut {result : WakeResult} (hpc : c.pc t = .uncounting result)
    (hlock : c.lockWaiting = none) : CondStep c t .go (c.countOut t result) := by
  simp only [WinCond.countOut]
  split_ifs with hlast
  · obtain ⟨hzero, rfl⟩ := hlast
    rw [hzero]
    exact .outLast hpc hlock (by omega)
  · exact .out hpc hlock fun hone hres => hlast ⟨by omega, hres⟩

theorem condStep_go (h : c.go t = some c') : CondStep c t .go c' := by
  unfold WinCond.go at h
  split at h
  next => cases h
  next hpc =>
    obtain ⟨hopen, h⟩ := Option.ite_none_right_eq_some.mp h
    exact Option.some.inj h ▸ .pass hpc hopen
  next hpc =>
    obtain ⟨hlock, h⟩ := Option.ite_none_right_eq_some.mp h
    exact Option.some.inj h ▸ .count hpc hlock
  next hpc => exact Option.some.inj h ▸ .release hpc
  next hpc =>
    split_ifs at h with hsig hbro
    · exact Option.some.inj h ▸ .wakeSignal hpc hsig
    · exact Option.some.inj h ▸ .wakeBroadcast hpc (by simpa using hsig) hbro
  next hpc =>
    obtain ⟨hlock, h⟩ := Option.ite_none_right_eq_some.mp h
    exact Option.some.inj h ▸ condStep_countOut hpc hlock
  next hpc => exact Option.some.inj h ▸ .reopen hpc
  next hpc =>
    obtain ⟨hfree, h⟩ := Option.ite_none_right_eq_some.mp h
    exact Option.some.inj h ▸ .relock hpc hfree
  next hpc =>
    obtain ⟨hlock, h⟩ := Option.ite_none_right_eq_some.mp h
    exact Option.some.inj h ▸ .signalled hpc hlock
  next hpc =>
    obtain ⟨hlock, h⟩ := Option.ite_none_right_eq_some.mp h
    split_ifs at h with hpos
    · exact Option.some.inj h ▸ .close hpc hlock hpos
    · exact Option.some.inj h ▸ .unheard hpc hlock hpos
  next hpc => exact Option.some.inj h ▸ .opened hpc

theorem condStep_of_move (h : c.move (t, m) = some c') : CondStep c t m c' := by
  cases m with
  | lock =>
    obtain ⟨hfree, h⟩ := Option.ite_none_right_eq_some.mp h
    obtain ⟨res, hpc, rfl⟩ := call_eq_some h
    exact (show c.pc t = .outside res from hpc) ▸ .lock hpc hfree
  | unlock =>
    obtain ⟨hown, h⟩ := Option.ite_none_right_eq_some.mp h
    obtain ⟨res, hpc, rfl⟩ := call_eq_some h
    exact (show c.pc t = .outside res from hpc) ▸ .unlock hpc hown
  | wait timed =>
    obtain ⟨hown, h⟩ := Option.ite_none_right_eq_some.mp h
    obtain ⟨res, hpc, rfl⟩ := call_eq_some h
    exact .wait hpc hown
  | signal =>
    obtain ⟨res, hpc, rfl⟩ := call_eq_some h
    exact .signal hpc
  | broadcast =>
    obtain ⟨res, hpc, rfl⟩ := call_eq_some h
    exact .broadcast hpc
  | go => exact condStep_go h
  | expire =>
    obtain ⟨hpc, h⟩ := Option.ite_none_right_eq_some.mp h
    exact Option.some.inj h ▸ .expire hpc

/-! ## The invariant of every run -/

namespace CondPc

/-- A waiter that has counted itself in and not yet out. -/
def counted : CondPc → Bool
  | .releasing _ | .asleep _ | .uncounting _ => true
  | _ => false

/-- The thread holds `lock_waiting` between two steps. -/
def locks : CondPc → Bool
  | .reopening | .opening => true
  | _ => false

/-- A waiter that has not yet given the mutex back. -/
def holds : CondPc → Bool
  | .gate _ | .counting _ | .releasing _ => true
  | _ => false

/-- A waiter that has given the mutex back and not yet taken it again. -/
def apart : CondPc → Bool
  | .asleep _ | .uncounting _ | .reopening | .relocking _ => true
  | _ => false

end CondPc

variable [Fintype τ]

/-- **The invariant**, whatever the calls: the counter counts the waiters, the two critical sections
have the holders that the steps say, and an event that is set has not been overlooked. -/
structure CondInv (c : WinCond τ) : Prop where
  waiting : c.waiting = (partiesAt CondPc.counted c.pc).card
  lock : ∀ t, c.lockWaiting = some t ↔ (c.pc t).locks = true
  holds : ∀ t, (c.pc t).holds = true → c.mutex = some t
  apart : ∀ t, (c.pc t).apart = true → c.mutex ≠ some t
  shut : c.broadcast = true → c.block = false
  reopening : ∀ t, c.pc t = .reopening → c.broadcast = false ∧ c.waiting = 0
  opening : ∀ t, c.pc t = .opening → c.block = false ∧ 0 < c.waiting
  told : ∀ t, c.pc t = .uncounting .broadcast → c.broadcast = true

omit [DecidableEq τ] in
theorem condInv_init : CondInv (pthreadCondInit : WinCond τ) where
  waiting := by simp [pthreadCondInit, partiesAt, CondPc.counted]
  lock _ := by simp [pthreadCondInit, CondPc.locks]
  holds _ h := by simp [pthreadCondInit, CondPc.holds] at h
  apart _ h := by simp [pthreadCondInit, CondPc.apart] at h
  shut h := by simp [pthreadCondInit] at h
  reopening _ h := by simp [pthreadCondInit] at h
  opening _ h := by simp [pthreadCondInit] at h
  told _ h := by simp [pthreadCondInit] at h

omit [Fintype τ] in
/-- The counter follows the place the thread leaves and the place it reaches. -/
theorem CondStep.waiting_eq (hs : CondStep c t m c') :
    c'.waiting + (c.pc t).counted.toNat = c.waiting + (c'.pc t).counted.toNat := by
  cases hs <;> simp_all [WinCond.goto, CondPc.counted]

omit [Fintype τ] in
theorem CondStep.pc_eq (hs : CondStep c t m c') : c'.pc = Function.update c.pc t (c'.pc t) := by
  cases hs <;> simp [WinCond.goto]

omit [Fintype τ] in
theorem CondStep.pc_of_ne (hs : CondStep c t m c') (hu : u ≠ t) : c'.pc u = c.pc u := by
  rw [hs.pc_eq, Function.update_of_ne hu]

omit [DecidableEq τ] in
/-- Nobody can be counted when the counter says that one waiter is and somebody else is it. -/
theorem CondInv.eq_of_waiting_one (h : CondInv c) (hone : c.waiting = 1)
    (ht : (c.pc t).counted = true) (hu : (c.pc u).counted = true) : u = t := by
  have hw := h.waiting
  exact eq_of_card_partiesAt_le_one (by omega) hu ht

omit [DecidableEq τ] in
theorem CondInv.waiting_pos_iff (h : CondInv c) :
    0 < c.waiting ↔ ∃ t, (c.pc t).counted = true := by
  rw [h.waiting, Nat.cast_pos, card_partiesAt_pos]

theorem CondInv.waiting_step (h : CondInv c) (hs : CondStep c t m c') :
    c'.waiting = (partiesAt CondPc.counted c'.pc).card := by
  have hcard := card_partiesAt_update CondPc.counted c.pc t (c'.pc t)
  rw [← hs.pc_eq] at hcard
  have hstep := hs.waiting_eq
  rw [h.waiting] at hstep
  omega

theorem CondInv.lock_step (h : CondInv c) (hs : CondStep c t m c') (u : τ) :
    c'.lockWaiting = some u ↔ (c'.pc u).locks = true := by
  have ht := h.lock t
  by_cases hu : u = t
  · subst hu
    cases hs <;> simp_all [WinCond.goto, CondPc.locks]
  · have hne : t ≠ u := Ne.symm hu
    rw [hs.pc_of_ne hu, ← h.lock u]
    cases hs <;> simp_all [WinCond.goto, CondPc.locks]

theorem CondInv.holds_step (h : CondInv c) (hs : CondStep c t m c') (u : τ)
    (hu : (c'.pc u).holds = true) : c'.mutex = some u := by
  have ht := h.holds t
  by_cases hut : u = t
  · subst hut
    cases hs <;> simp_all [WinCond.goto, CondPc.holds]
  · have hne : t ≠ u := Ne.symm hut
    rw [hs.pc_of_ne hut] at hu
    have hown := h.holds u hu
    cases hs <;> simp_all [WinCond.goto, CondPc.holds]

theorem CondInv.apart_step (h : CondInv c) (hs : CondStep c t m c') (u : τ)
    (hu : (c'.pc u).apart = true) : c'.mutex ≠ some u := by
  have ht := h.holds t
  by_cases hut : u = t
  · subst hut
    have hapart := h.apart u
    cases hs <;> simp_all [WinCond.goto, CondPc.holds, CondPc.apart]
  · have hne : t ≠ u := Ne.symm hut
    rw [hs.pc_of_ne hut] at hu
    have hown := h.apart u hu
    cases hs <;> simp_all [WinCond.goto, CondPc.holds]

theorem CondInv.shut_step (h : CondInv c) (hs : CondStep c t m c')
    (hb : c'.broadcast = true) : c'.block = false := by
  have hshut := h.shut
  have hre := h.reopening t
  have hop := h.opening t
  cases hs <;> simp_all [WinCond.goto]

theorem CondInv.reopening_step (h : CondInv c) (hs : CondStep c t m c') (u : τ)
    (hu : c'.pc u = .reopening) : c'.broadcast = false ∧ c'.waiting = 0 := by
  by_cases hut : u = t
  · subst hut
    cases hs <;> simp_all [WinCond.goto]
  · rw [hs.pc_of_ne hut] at hu
    -- `u` holds `lock_waiting`, so `t` neither counts nor opens the broadcast gate
    have hlock := (h.lock u).mpr (by rw [hu]; rfl)
    have hkeep := h.reopening u hu
    have ht := h.lock t
    cases hs <;> simp_all [WinCond.goto, CondPc.locks]

theorem CondInv.opening_step (h : CondInv c) (hs : CondStep c t m c') (u : τ)
    (hu : c'.pc u = .opening) : c'.block = false ∧ 0 < c'.waiting := by
  by_cases hut : u = t
  · subst hut
    cases hs <;> simp_all [WinCond.goto]
  · rw [hs.pc_of_ne hut] at hu
    have hlock := (h.lock u).mpr (by rw [hu]; rfl)
    have hkeep := h.opening u hu
    have ht := h.lock t
    cases hs <;> simp_all [WinCond.goto, CondPc.locks]

theorem CondInv.told_step (h : CondInv c) (hs : CondStep c t m c') (u : τ)
    (hu : c'.pc u = .uncounting .broadcast) : c'.broadcast = true := by
  by_cases hut : u = t
  · subst hut
    cases hs <;> simp_all [WinCond.goto]
  · rw [hs.pc_of_ne hut] at hu
    have hkeep := h.told u hu
    cases hs with
    | outLast hpc _ hlast =>
      -- both would be counted
      exact absurd (h.eq_of_waiting_one hlast (by rw [hpc]; rfl) (by rw [hu]; rfl)) hut
    | opened => rfl
    | _ => exact hkeep

/-- **Every step keeps the invariant.** -/
theorem CondInv.step (h : CondInv c) (hs : CondStep c t m c') : CondInv c' :=
  ⟨h.waiting_step hs, h.lock_step hs, h.holds_step hs, h.apart_step hs, h.shut_step hs,
    h.reopening_step hs, h.opening_step hs, h.told_step hs⟩

theorem condInv_of_run {hist : List (WinCond τ × (τ × CondMove))}
    (hrun : Run WinCond.move pthreadCondInit hist c) : CondInv c :=
  hrun.invariant CondInv (fun _ => True) condInv_init
    (fun _ _ _ h _ hs => h.step (condStep_of_move hs)) fun _ _ => trivial

/-! ## The block gate

A closed gate is opened again by the last waiter, provided it finds that a broadcast has woken it.
-/

/-- **Sound**: a closed gate is about to be moved, or a broadcast is on and somebody is counted who
will open it. -/
def GateSound (c : WinCond τ) : Prop :=
  c.block = false → c.lockWaiting ≠ none ∨ c.broadcast = true ∧ 0 < c.waiting

/-- The last waiter leaves through a closed gate for another reason than the broadcast. -/
def Strands (e : WinCond τ × (τ × CondMove)) : Prop :=
  e.2.2 = .go ∧ e.1.block = false ∧ e.1.waiting = 1 ∧
    (e.1.pc e.2.1 = .uncounting .signal ∨ e.1.pc e.2.1 = .uncounting .timeout)

instance (e : WinCond τ × (τ × CondMove)) : Decidable (Strands e) :=
  inferInstanceAs (Decidable (_ ∧ _ ∧ _ ∧ (_ ∨ _)))

/-- **What a step does to the gate**: it stays sound unless the last waiter leaves it closed. -/
theorem gateSound_step (h : CondInv c) (hg : GateSound c) (hs : CondStep c t m c') :
    GateSound c' ↔ ¬ Strands (c, (t, m)) := by
  have hop := h.opening t
  have hre := h.reopening t
  unfold GateSound at hg ⊢
  cases hs with
  | count hpc _ =>
    have hpos := h.waiting
    simp_all [Strands, WinCond.goto]
  | @out result hpc hlock hmore =>
    have hpos : 0 < c.waiting := h.waiting_pos_iff.mpr ⟨t, by rw [hpc]; rfl⟩
    by_cases hblock : c.block = true
    · simp [Strands, WinCond.goto, hblock]
    · have hbro := (hg (by simpa using hblock)).resolve_left (by simp [hlock])
      simp only [Bool.not_eq_true] at hblock
      have hlast : c.waiting - 1 > 0 ↔ c.waiting ≠ 1 := by omega
      cases result <;> simp_all [Strands, WinCond.goto]
  | _ => simp_all [Strands, WinCond.goto]

omit [DecidableEq τ] [Fintype τ] in
theorem gateSound_init : GateSound (pthreadCondInit : WinCond τ) := by
  intro h
  cases h

section Histories

variable {hist after before : List (WinCond τ × (τ × CondMove))}

/-- **The gate over a run**: it is sound in every state reached exactly when no last waiter ever
leaves it closed. -/
theorem gateSound_iff (hrun : Run WinCond.move pthreadCondInit hist c) :
    (∀ e ∈ hist, ∀ c', WinCond.move e.1 e.2 = some c' → GateSound c') ↔
      ∀ e ∈ hist, ¬ Strands e := by
  refine hrun.forall_iff (fun c => CondInv c ∧ GateSound c) ⟨condInv_init, gateSound_init⟩ ?_
  · intro c ⟨t, m⟩ c' ⟨hinv, hg⟩ hmove
    have hs := condStep_of_move hmove
    have hiff := gateSound_step hinv hg hs
    refine ⟨⟨fun hall => hiff.mp (hall c' hmove), fun hok c'' hc'' => ?_⟩, fun hok =>
      ⟨hinv.step hs, hiff.mpr hok⟩⟩
    obtain rfl := Option.some.inj (hmove.symm.trans hc'')
    exact hiff.mpr hok

/-- A signal and a broadcast for one sleeper: it wakes up on the signal, the lower index, and leaves
the gate as the broadcast closed it. -/
def signalThenBroadcast : List (Bool × CondMove) :=
  [(false, .lock), (false, .wait false), (false, .go), (false, .go), (false, .go), (true, .signal),
    (true, .go), (true, .broadcast), (true, .go), (true, .go), (false, .go), (false, .go),
    (false, .go), (false, .unlock)]

theorem gateSound_iff_signalled :
    ∃ hist c, Run WinCond.move (pthreadCondInit : WinCond Bool) hist c ∧
      ¬ ∀ e ∈ hist, ∀ c', WinCond.move e.1 e.2 = some c' → GateSound c' := by
  have h : Run.play WinCond.move (pthreadCondInit : WinCond Bool) signalThenBroadcast
      = some (_, _) := rfl
  have hrun := Run.of_play h
  exact ⟨_, _, hrun, fun hall => absurd ((gateSound_iff hrun).mp hall) (by decide)⟩

/-- What the variable is used for, as by the barrier and by the event queue: waits without a time,
and broadcasts only or signals only. -/
def OneKind (hist : List (WinCond τ × (τ × CondMove))) : Prop :=
  (∀ e ∈ hist, e.2.2 ≠ .wait true) ∧
    ((∀ e ∈ hist, e.2.2 ≠ .signal) ∨ ∀ e ∈ hist, e.2.2 ≠ .broadcast)

/-- Nobody waits with a time. -/
def Untimed (c : WinCond τ) : Prop :=
  ∀ t, c.pc t ≠ .gate true ∧ c.pc t ≠ .counting true ∧ c.pc t ≠ .releasing true ∧
    c.pc t ≠ .asleep true ∧ c.pc t ≠ .uncounting .timeout

/-- Nobody has signalled. -/
def Unsignalled (c : WinCond τ) : Prop :=
  c.signal = false ∧ ∀ t, c.pc t ≠ .signalling ∧ c.pc t ≠ .uncounting .signal

/-- Nobody has broadcast. -/
def Unannounced (c : WinCond τ) : Prop :=
  c.block = true ∧ c.broadcast = false ∧ ∀ t, c.pc t ≠ .announcing ∧ c.pc t ≠ .opening

omit [Fintype τ] in
theorem untimed_step (h : Untimed c) (hs : CondStep c t m c') (hm : m ≠ .wait true) :
    Untimed c' := by
  intro u
  by_cases hu : u = t
  · subst hu
    have hpc := h u
    cases hs <;> simp_all [WinCond.goto]
  · rw [hs.pc_of_ne hu]
    exact h u

omit [Fintype τ] in
theorem unsignalled_step (h : Unsignalled c) (hs : CondStep c t m c') (hm : m ≠ .signal) :
    Unsignalled c' := by
  refine ⟨?_, fun u => ?_⟩
  · have hsig := h.1
    have hpc := h.2 t
    cases hs <;> simp_all [WinCond.goto]
  · by_cases hu : u = t
    · subst hu
      have hsig := h.1
      cases hs <;> simp_all [WinCond.goto]
    · rw [hs.pc_of_ne hu]
      exact h.2 u

omit [Fintype τ] in
theorem unannounced_step (h : Unannounced c) (hs : CondStep c t m c') (hm : m ≠ .broadcast) :
    Unannounced c' := by
  have hpc := h.2.2 t
  refine ⟨?_, ?_, fun u => ?_⟩
  · have hblock := h.1
    cases hs <;> simp_all [WinCond.goto]
  · have hbro := h.2.1
    cases hs <;> simp_all [WinCond.goto]
  · by_cases hu : u = t
    · subst hu
      cases hs <;> simp_all [WinCond.goto]
    · rw [hs.pc_of_ne hu]
      exact h.2.2 u

/-- **One kind of call keeps the gate sound.** -/
theorem gateSound_of_oneKind (hrun : Run WinCond.move pthreadCondInit hist c)
    (huse : OneKind hist) : GateSound c := by
  rcases huse.2 with hsig | hbro
  · refine (hrun.invariant (fun c => CondInv c ∧ GateSound c ∧ Untimed c ∧ Unsignalled c)
      (fun e => e.2.2 ≠ .wait true ∧ e.2.2 ≠ .signal) ?_ ?_
      fun e he => ⟨huse.1 e he, hsig e he⟩).2.1
    · exact ⟨condInv_init, gateSound_init, fun _ => by simp [pthreadCondInit], rfl,
        fun _ => by simp [pthreadCondInit]⟩
    · intro c ⟨t, m⟩ c' ⟨hi, hg, ht, hu⟩ hm hmove
      have hs := condStep_of_move hmove
      have hstay : ¬ Strands (c, (t, m)) := fun ⟨_, _, _, hpc⟩ =>
        hpc.elim (hu.2 t).2 (ht t).2.2.2.2
      exact ⟨hi.step hs, (gateSound_step hi hg hs).mpr hstay, untimed_step ht hs hm.1,
        unsignalled_step hu hs hm.2⟩
  · have hopen : Unannounced c := hrun.invariant Unannounced (fun e => e.2.2 ≠ .broadcast)
      ⟨rfl, rfl, fun _ => by simp [pthreadCondInit]⟩
      (fun _ _ _ h hm hs => unannounced_step h (condStep_of_move hs) hm) hbro
    intro hblock
    rw [hopen.1] at hblock
    cases hblock

/-- A thread that has nothing to do in the variable: it is outside, or it sleeps and nobody has
woken it, or it wants a mutex that a thread outside holds. -/
def AtRest (c : WinCond τ) (t : τ) : Prop :=
  (∃ res, c.pc t = .outside res) ∨
    (∃ timed, c.pc t = .asleep timed) ∧ c.signal = false ∧ c.broadcast = false ∨
    (∃ result, c.pc t = .relocking result) ∧ ∃ u res, c.mutex = some u ∧ c.pc u = .outside res

omit [Fintype τ] in
/-- Where a thread is that cannot go on, when nobody is inside a section of `lock_waiting`. -/
theorem pc_of_go_none (hlock : c.lockWaiting = none) (h : c.go t = none) :
    (∃ res, c.pc t = .outside res) ∨ (∃ timed, c.pc t = .gate timed) ∧ c.block = false ∨
      (∃ timed, c.pc t = .asleep timed) ∧ c.signal = false ∧ c.broadcast = false ∨
      (∃ result, c.pc t = .relocking result) ∧ c.mutex ≠ none := by
  unfold WinCond.go at h
  cases hpc : c.pc t <;> simp_all
  · split at h <;> simp_all
  · split at h <;> cases h

/-- **A sound gate lets nobody get stuck**: when no thread can go on, they are all at rest. -/
theorem atRest_of_stuck (h : CondInv c) (hg : GateSound c) (hstuck : ∀ t, c.go t = none) (t : τ) :
    AtRest c t := by
  have hlock : c.lockWaiting = none := by
    rw [Option.eq_none_iff_forall_ne_some]
    intro u hu
    have hgo := hstuck u
    have hpc := (h.lock u).mp hu
    unfold WinCond.go at hgo
    cases hu : c.pc u <;> simp_all [CondPc.locks]
  have hpc := fun u => pc_of_go_none hlock (hstuck u)
  have hopen : c.block = true := by
    by_contra hblock
    obtain ⟨hbro, hpos⟩ := (hg (by simpa using hblock)).resolve_left (fun hne => hne hlock)
    obtain ⟨u, hu⟩ := h.waiting_pos_iff.mp hpos
    -- the waiter that is counted can only be asleep, and the broadcast wakes it
    rcases hpc u with ⟨_, hp⟩ | ⟨⟨_, hp⟩, -⟩ | ⟨-, -, hoff⟩ | ⟨⟨_, hp⟩, -⟩
    · simp [hp, CondPc.counted] at hu
    · simp [hp, CondPc.counted] at hu
    · simp [hoff] at hbro
    · simp [hp, CondPc.counted] at hu
  rcases hpc t with hout | ⟨-, hshut⟩ | hsleep | ⟨hre, hown⟩
  · exact .inl hout
  · simp [hopen] at hshut
  · exact .inr (.inl hsleep)
  · obtain ⟨u, hu⟩ := Option.ne_none_iff_exists'.mp hown
    refine .inr (.inr ⟨hre, u, ?_⟩)
    have hapart := h.apart u
    rcases hpc u with ⟨res, hp⟩ | ⟨-, hshut⟩ | ⟨⟨_, hp⟩, -⟩ | ⟨⟨_, hp⟩, -⟩
    · exact ⟨res, hu, hp⟩
    · simp [hopen] at hshut
    · exact absurd hu (hapart (by rw [hp]; rfl))
    · exact absurd hu (hapart (by rw [hp]; rfl))

/-- **The variable as the barrier and the event queue use it** never stops a thread that it should
let go on: in every run with one kind of call, when no thread can go on, each is outside, or sleeps
unwoken, or wants a mutex that a thread outside holds. -/
theorem atRest_of_oneKind (hrun : Run WinCond.move pthreadCondInit hist c) (huse : OneKind hist)
    (hstuck : ∀ t, c.move (t, .go) = none) (t : τ) : AtRest c t :=
  atRest_of_stuck (condInv_of_run hrun) (gateSound_of_oneKind hrun huse) hstuck t

/-- Threads that meet at a barrier of two: the first one waits, the second broadcasts, and the first
is about to count itself out. -/
def meetOnWindows : List (Bool × CondMove) :=
  [(false, .lock), (false, .wait false), (false, .go), (false, .go), (false, .go), (true, .lock),
    (true, .broadcast), (true, .go), (true, .go), (false, .go), (false, .go), (false, .go)]

theorem atRest_of_oneKind_barrier :
    ∃ hist c, Run WinCond.move (pthreadCondInit : WinCond Bool) hist c ∧ OneKind hist ∧
      (∀ t, c.move (t, .go) = none) ∧ c.pc false = .relocking .broadcast ∧ AtRest c false := by
  have h : Run.play WinCond.move (pthreadCondInit : WinCond Bool) meetOnWindows
      = some (_, _) := rfl
  have hrun := Run.of_play h
  exact ⟨_, _, hrun, ⟨by decide, .inl (by decide)⟩, by decide, rfl,
    atRest_of_oneKind hrun ⟨by decide, .inl (by decide)⟩ (by decide) false⟩

/-! ## Waking up -/

/-- While a waiter is counted, a broadcast that has closed the block gate goes on to open the
broadcast gate, which then stays open. -/
theorem broadcast_step {b : τ} (h : CondInv c) (hs : CondStep c u m c')
    (ht : (c.pc t).counted = true) (ht' : (c'.pc t).counted = true)
    (hb : c.pc b = .opening ∨ c.broadcast = true) : c'.pc b = .opening ∨ c'.broadcast = true := by
  rcases hb with hb | hb
  · by_cases hbu : b = u
    · subst hbu
      cases hs <;> simp_all [WinCond.goto]
    · exact .inl ((hs.pc_of_ne hbu).trans hb)
  · refine .inr ?_
    cases hs with
    | outLast hpc _ hlast =>
      -- the only waiter that is counted leaves, so it is `t`
      obtain rfl := h.eq_of_waiting_one hlast (by rw [hpc]; rfl) ht
      simp [WinCond.goto, CondPc.counted] at ht'
    | opened => rfl
    | _ => exact hb

/-- **No waiter is forgotten by a broadcast**, in any run: when a thread calls
`pthread_cond_broadcast` while `t` is counted, and `t` has been counted ever since and sleeps, then
`t` can go on as soon as the call has got past the broadcast gate. -/
theorem asleep_goes_of_broadcast {c₁ : WinCond τ} {b : τ} {timed : Bool}
    (hrun : Run WinCond.move pthreadCondInit (before ++ (c₁, (b, .go)) :: after) c)
    (hcall : c₁.pc b = .announcing) (ht : (c₁.pc t).counted = true)
    (hstill : ∀ e ∈ after, (e.1.pc t).counted = true) (hdone : c.pc b ≠ .opening)
    (hasleep : c.pc t = .asleep timed) : ∃ c', c.move (t, .go) = some c' := by
  obtain ⟨c₂, hbefore, hmove, hafter⟩ := hrun.split
  have hinv := condInv_of_run hbefore
  have hpos := hinv.waiting_pos_iff.mpr ⟨t, ht⟩
  have hclosed : c₂.pc b = .opening := by
    have hs := condStep_of_move hmove
    cases hs <;> simp_all [WinCond.goto]
  have hopen := (hafter.invariant
    (fun c => CondInv c ∧ ((c.pc t).counted = true → c.pc b = .opening ∨ c.broadcast = true))
    (fun e => (e.1.pc t).counted = true) ⟨hinv.step (condStep_of_move hmove), fun _ => .inl hclosed⟩
    (fun c _ c' h ht hs => ⟨h.1.step (condStep_of_move hs), fun ht' =>
      broadcast_step h.1 (condStep_of_move hs) ht ht' (h.2 ht)⟩) hstill).2
  have hset := (hopen (by rw [hasleep]; rfl)).resolve_left hdone
  cases hsig : c.signal with
  | true => exact ⟨_, by simp only [WinCond.move, WinCond.go, hasleep, hsig, if_true]; rfl⟩
  | false =>
    exact ⟨_, by simp only [WinCond.move, WinCond.go, hasleep, hsig, hset, if_true]; rfl⟩

theorem asleep_goes_of_broadcast_barrier :
    ∃ before c₁ after c, Run WinCond.move (pthreadCondInit : WinCond Bool)
        (before ++ (c₁, (true, .go)) :: after) c ∧
      c.pc false = .asleep false ∧ ∃ c', c.move (false, .go) = some c' := by
  have h : Run.play WinCond.move (pthreadCondInit : WinCond Bool) (meetOnWindows.take 9)
      = some (_, _) := rfl
  have hrun : Run WinCond.move pthreadCondInit
      ([_, _, _, _, _, _, _] ++ (_, (true, .go)) :: [_]) _ :=
    Run.of_play h
  exact ⟨_, _, _, _, hrun, rfl,
    asleep_goes_of_broadcast hrun rfl rfl (by decide) (by decide) rfl⟩

/-- A signal that somebody is counted for. -/
def signalsSomebody (e : WinCond τ × (τ × CondMove)) : Bool :=
  decide (e.2.2 = .go ∧ e.1.pc e.2.1 = .signalling ∧ 0 < e.1.waiting)

/-- A sleeper takes the signal. -/
def takesSignal (e : WinCond τ × (τ × CondMove)) : Bool :=
  decide (e.2.2 = .go ∧ (e.1.pc e.2.1 = .asleep false ∨ e.1.pc e.2.1 = .asleep true) ∧
    e.1.signal = true)

/-- A signal that somebody is counted for, while the event is still set from an earlier one. -/
def mergesSignal (e : WinCond τ × (τ × CondMove)) : Bool :=
  signalsSomebody e && e.1.signal

omit [Fintype τ] in
/-- **The account of the signals**: a signal is taken by one sleeper, or the event is still set, or
it came while the event was set. -/
theorem signals_eq (hrun : Run WinCond.move pthreadCondInit hist c) :
    hist.countP signalsSomebody
      = hist.countP takesSignal + hist.countP mergesSignal + c.signal.toNat := by
  refine hrun.induction (fun hist c => hist.countP signalsSomebody
    = hist.countP takesSignal + hist.countP mergesSignal + c.signal.toNat) rfl ?_
  intro hist c ⟨t, m⟩ c' ih hmove
  rw [countP_concat, countP_concat, countP_concat, ih]
  have hs := condStep_of_move hmove
  have hstep : (signalsSomebody (c, (t, m))).toNat + c.signal.toNat
      = (takesSignal (c, (t, m))).toNat + (mergesSignal (c, (t, m))).toNat + c'.signal.toNat := by
    cases hs with
    | signalled hpc hlock =>
      cases hsig : c.signal <;>
        simp [signalsSomebody, takesSignal, mergesSignal, WinCond.goto, hpc, hsig]
    | @wakeSignal timed hpc hset =>
      cases timed <;> simp [signalsSomebody, takesSignal, mergesSignal, WinCond.goto, hpc, hset]
    | _ => simp_all [signalsSomebody, takesSignal, mergesSignal, WinCond.goto]
  omega

omit [Fintype τ] in
/-- **Every signal wakes somebody exactly when none is given before the last one is taken.** -/
theorem signals_taken_iff (hrun : Run WinCond.move pthreadCondInit hist c) :
    hist.countP signalsSomebody = hist.countP takesSignal + c.signal.toNat ↔
      ∀ e ∈ hist, mergesSignal e = false := by
  have hsum := signals_eq hrun
  have hzero : hist.countP mergesSignal = 0 ↔ ∀ e ∈ hist, mergesSignal e = false := by
    simp [List.countP_eq_zero]
  rw [← hzero]
  omega

/-- Two events come before the first worker wakes up. -/
def signalTwice : List (Option Bool × CondMove) :=
  [(some false, .lock), (some false, .wait false), (some false, .go), (some false, .go),
    (some false, .go), (some true, .lock), (some true, .wait false), (some true, .go),
    (some true, .go), (some true, .go), (none, .signal), (none, .go), (none, .signal), (none, .go),
    (some false, .go)]

theorem signals_taken_iff_twice :
    ∃ hist c, Run WinCond.move (pthreadCondInit : WinCond (Option Bool)) hist c ∧
      c.pc (some true) = .asleep false ∧
      hist.countP signalsSomebody ≠ hist.countP takesSignal + c.signal.toNat := by
  have h : Run.play WinCond.move (pthreadCondInit : WinCond (Option Bool)) signalTwice
      = some (_, _) := rfl
  have hrun := Run.of_play h
  exact ⟨_, _, hrun, rfl, fun heq => absurd ((signals_taken_iff hrun).mp heq) (by decide)⟩

/-! ## Both kinds of call on one variable -/

/-- **Stranded**: the gate is closed and nobody is left to open it. -/
structure Stranded (c : WinCond τ) : Prop where
  shut : c.block = false
  lock : c.lockWaiting = none
  waiting : c.waiting = 0
  passed : ∀ t timed, c.pc t ≠ .counting timed

theorem stranded_step (h : CondInv c) (hc : Stranded c) (hs : CondStep c t m c') : Stranded c' := by
  have hshut := hc.shut
  have hlock := hc.lock
  have hwait := hc.waiting
  have hpassed := hc.passed t
  have hlocks := h.lock t
  have hcounted : (c.pc t).counted ≠ true := fun ht => by
    have hpos := h.waiting_pos_iff.mpr ⟨t, ht⟩
    omega
  refine ⟨?_, ?_, ?_, fun u timed => ?_⟩
  · cases hs <;> simp_all [WinCond.goto, CondPc.locks]
  · cases hs <;> simp_all [WinCond.goto, CondPc.counted]
  · cases hs <;> simp_all [WinCond.goto, CondPc.counted]
  · by_cases hu : u = t
    · subst hu
      cases hs <;> simp_all [WinCond.goto]
    · rw [hs.pc_of_ne hu]
      exact hc.passed u timed

omit [Fintype τ] in
/-- Nobody passes a closed gate. -/
theorem gate_step {timed : Bool} (hshut : c.block = false) (hs : CondStep c t m c')
    (hu : c.pc u = .gate timed) : c'.pc u = .gate timed := by
  by_cases hut : u = t
  · subst hut
    cases hs <;> simp_all
  · rw [hs.pc_of_ne hut, hu]

/-- **Once the gate is stranded, no wait returns**: in every run from there, whoever calls
`pthread_cond_wait` stands at the gate for good, with the mutex. -/
theorem wait_stuck_of_stranded {hist' : List (WinCond τ × (τ × CondMove))}
    (hrun : Run WinCond.move pthreadCondInit hist c) (hc : Stranded c)
    (hrun' : Run WinCond.move c hist' c') :
    Stranded c' ∧ ∀ e ∈ hist', ∀ timed, e.2.2 = .wait timed →
      c'.pc e.2.1 = .gate timed ∧ c'.mutex = some e.2.1 := by
  have hall := hrun'.induction (fun hist c => CondInv c ∧ Stranded c ∧ ∀ e ∈ hist, ∀ timed,
    e.2.2 = .wait timed → c.pc e.2.1 = .gate timed) ⟨condInv_of_run hrun, hc, by simp⟩ ?_
  · refine ⟨hall.2.1, fun e he timed hw => ⟨hall.2.2 e he timed hw, hall.1.holds _ ?_⟩⟩
    rw [hall.2.2 e he timed hw]
    rfl
  · intro hist c ⟨t, m⟩ c' ⟨hinv, hst, hgate⟩ hmove
    have hs := condStep_of_move hmove
    refine ⟨hinv.step hs, stranded_step hinv hst hs, fun e he timed hw => ?_⟩
    rcases List.mem_append.mp he with he | he
    · exact gate_step hst.shut hs (hgate e he timed hw)
    · obtain rfl := List.mem_singleton.mp he
      obtain rfl := hw
      cases hs
      simp [WinCond.goto]

/-- What they leave behind. -/
def afterBoth : WinCond Bool :=
  ((Run.play WinCond.move pthreadCondInit signalThenBroadcast).map Prod.snd).getD pthreadCondInit

theorem wait_stuck_of_stranded_signalled :
    ∃ hist hist' c', Run WinCond.move (pthreadCondInit : WinCond Bool) hist afterBoth ∧
      Run WinCond.move afterBoth hist' c' ∧ c'.pc true = .gate false ∧ c'.mutex = some true := by
  have h : Run.play WinCond.move (pthreadCondInit : WinCond Bool) signalThenBroadcast
      = some (_, afterBoth) := rfl
  have h' : Run.play WinCond.move afterBoth [(true, .lock), (true, .wait false)] = some (_, _) :=
    rfl
  have hstuck := (wait_stuck_of_stranded (Run.of_play h) ⟨rfl, rfl, rfl, by decide⟩
    (Run.of_play h')).2 _ (List.mem_cons_of_mem _ (List.mem_singleton_self _)) false rfl
  exact ⟨_, _, _, Run.of_play h, Run.of_play h', hstuck⟩

end Histories

end Sysbench.Threads
