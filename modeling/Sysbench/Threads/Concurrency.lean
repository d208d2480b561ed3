import Sysbench.Threads.EventQueue

/-!
# Threads/Concurrency — the requests under way in `--tx-rate` mode

`sb_globals.concurrency`, which intermediate reports print, is raised in the section that takes an
event and lowered in another one after the request.  A request that returns an error breaks out of
the loop between the two.

Whatever the workers do, the counter is the workers with an event in hand and one for each request
that has failed (`concurrency_eq`); so it is right exactly as long as none has
(`concurrency_eq_iff`).
-/

namespace Sysbench.Threads

variable {ω : Type} [DecidableEq ω]

/-- A move of any thread, without what is recorded of it. -/
def queueMove (s : QueueState ω) (m : Move ω) : Option (QueueState ω) := (step s m).map Prod.snd

/-- A worker that has taken an event and is still processing it. -/
def WorkerPc.holdsEvent : WorkerPc → Bool
  | .executing | .releasing => true
  | .ready | .waiting | .left => false

/-- The workers that have taken an event and are still processing it. -/
def processing [Fintype ω] (s : QueueState ω) : ℕ :=
  (Finset.univ.filter fun w => (s.workerPc w).holdsEvent).card

/-- The move is a call of `execute_request` that returns an error. -/
def failsRequest : Move ω → Bool
  | .execute _ err => err
  | _ => false

/-- The failures of a run. -/
def failures (hist : List (QueueState ω × Move ω)) : ℕ := hist.countP fun e => failsRequest e.2

section Counting

variable {ω : Type} [Fintype ω] {s s' : QueueState ω}

theorem processing_eq_sum (s : QueueState ω) :
    processing s = ∑ w, (s.workerPc w).holdsEvent.toNat := by
  rw [processing, Finset.card_filter]
  exact Finset.sum_congr rfl fun w _ => by cases (s.workerPc w).holdsEvent <;> rfl

/-- The positions of the workers are all that matters. -/
theorem processing_congr (h : s'.workerPc = s.workerPc) : processing s' = processing s := by
  rw [processing, processing, h]

/-- A worker goes on to `pc`. -/
theorem processing_add [DecidableEq ω] {w : ω} {pc : WorkerPc}
    (h : s'.workerPc = Function.update s.workerPc w pc) :
    processing s' + (s.workerPc w).holdsEvent.toNat = processing s + pc.holdsEvent.toNat := by
  rw [processing_eq_sum, processing_eq_sum]
  have hsame : ∀ w', w' ≠ w →
      (s'.workerPc w').holdsEvent.toNat = (s.workerPc w').holdsEvent.toNat :=
    fun w' hw' => by rw [h, Function.update_of_ne hw']
  rw [sum_add_eq_of_ne (Finset.mem_univ w) hsame, h, Function.update_self]

end Counting

/-- A worker takes an event. -/
theorem takeEvent_worker (w : ω) (s : QueueState ω) :
    (takeEvent w s).2.workerPc = Function.update s.workerPc w .executing ∧
      (takeEvent w s).2.concurrency = s.concurrency + 1 := by
  unfold takeEvent
  split <;> exact ⟨rfl, rfl⟩

/-- **What a move does to the workers**: nothing, or one of them goes on, and the counter with it
unless its request fails. -/
theorem queueMove_worker {s s' : QueueState ω} {m : Move ω} (hmove : queueMove s m = some s') :
    (s'.workerPc = s.workerPc ∧ s'.concurrency = s.concurrency ∧ failsRequest m = false) ∨
      ∃ w pc, s'.workerPc = Function.update s.workerPc w pc ∧
        s'.concurrency + (s.workerPc w).holdsEvent.toNat
          = s.concurrency + pc.holdsEvent.toNat + (failsRequest m).toNat := by
  obtain ⟨⟨o, t⟩, hstep, rfl⟩ := Option.map_eq_some_iff.mp hmove
  cases m <;>
    simp only [step, Option.ite_none_right_eq_some, Option.some.injEq, Prod.mk.injEq] at hstep
  case stamp t =>
    obtain ⟨-, -, rfl⟩ := hstep
    exact .inl ⟨rfl, rfl, rfl⟩
  case link =>
    obtain ⟨-, -, rfl⟩ := hstep
    exact .inl ⟨rfl, rfl, rfl⟩
  case testFull =>
    obtain ⟨-, -, rfl⟩ := hstep
    left
    dsimp only [nextSlot]
    split <;> exact ⟨rfl, rfl, rfl⟩
  case enter w =>
    obtain ⟨hpc, -, rfl⟩ := hstep
    refine .inr ⟨w, _, rfl, ?_⟩
    rw [hpc]
    cases s.queueIsFull <;> simp [setWorker, failsRequest, WorkerPc.holdsEvent]
  case dequeue w =>
    obtain ⟨⟨hpc, -⟩, hstep⟩ := hstep
    obtain rfl : (takeEvent w s).2 = t := congrArg Prod.snd hstep
    obtain ⟨hworker, hconc⟩ := takeEvent_worker w s
    refine .inr ⟨w, _, hworker, ?_⟩
    rw [hpc, hconc]
    rfl
  case execute w err =>
    obtain ⟨hpc, -, rfl⟩ := hstep
    refine .inr ⟨w, _, rfl, ?_⟩
    rw [hpc]
    cases err <;> simp [setWorker, failsRequest, WorkerPc.holdsEvent]
  case release w again =>
    obtain ⟨hpc, -, rfl⟩ := hstep
    refine .inr ⟨w, _, rfl, ?_⟩
    rw [hpc]
    cases again <;> simp [setWorker, failsRequest, WorkerPc.holdsEvent]

variable [Fintype ω] {s s' : QueueState ω} {m : Move ω} {hist : List (QueueState ω × Move ω)}
  {links : Links QueueNode} {eventTime : ℕ → ℕ}

/-- **One move**: the counter follows the workers, except where a request fails. -/
theorem queueMove_concurrency (hmove : queueMove s m = some s') :
    s'.concurrency + processing s = s.concurrency + processing s' + (failsRequest m).toNat := by
  rcases queueMove_worker hmove with ⟨hpc, hconc, hfails⟩ | ⟨w, pc, hpc, hconc⟩
  · rw [processing_congr hpc, hconc, hfails]
    simp
  · have hadd := processing_add hpc
    omega

/-- **Every run**: the counter is the workers with an event in hand, and those whose request
failed. -/
theorem concurrency_eq (hrun : Run queueMove (startQueue links eventTime) hist s) :
    s.concurrency = processing s + failures hist := by
  refine hrun.induction (fun hist s => s.concurrency = processing s + failures hist)
    (by simp [startQueue, processing, failures, WorkerPc.holdsEvent]) ?_
  intro hist s m s' hind hmove
  have hstep := queueMove_concurrency hmove
  rw [failures, countP_concat]
  push_cast
  rw [failures] at hind
  omega

/-- **The counter is the number of workers still processing an event exactly as long as no request
has failed**, for every number of workers, all outcomes and every interleaving. -/
theorem concurrency_eq_iff (hrun : Run queueMove (startQueue links eventTime) hist s) :
    s.concurrency = processing s ↔ ∀ e ∈ hist, failsRequest e.2 = false := by
  have heq := concurrency_eq hrun
  have hnone : failures hist = 0 ↔ ∀ e ∈ hist, failsRequest e.2 = false := by
    simp [failures, List.countP_eq_zero]
  rw [← hnone]
  omega

/-- One worker takes an event and executes its request. -/
theorem concurrency_eq_oneRequest :
    ∃ hist, ∃ s : QueueState Unit, Run queueMove (startQueue ⟨id, id⟩ fun _ => 0) hist s ∧
      hist.map Prod.snd = [.stamp 7, .link, .testFull, .enter (), .dequeue (),
        .execute () false] ∧ s.concurrency = processing s ∧ processing s = 1 := by
  have h : Run.play queueMove (startQueue ⟨id, id⟩ fun _ => 0) [.stamp 7, .link, .testFull,
      .enter (), .dequeue (), .execute () false] = some (_, _) := rfl
  have hrun := Run.of_play h
  refine ⟨_, _, hrun, rfl, (concurrency_eq_iff hrun).mpr (by decide), by decide⟩

/-- **One worker fails**: it has left its loop, and the counter still has it. -/
theorem concurrency_oneFailure :
    ∃ hist, ∃ s : QueueState Unit, Run queueMove (startQueue ⟨id, id⟩ fun _ => 0) hist s ∧
      hist.map Prod.snd = [.stamp 7, .link, .testFull, .enter (), .dequeue (),
        .execute () true] ∧ s.workerPc () = .left ∧ s.concurrency = 1 ∧ processing s = 0 ∧
      s.concurrency ≠ processing s := by
  have h : Run.play queueMove (startQueue ⟨id, id⟩ fun _ => 0) [.stamp 7, .link, .testFull,
      .enter (), .dequeue (), .execute () true] = some (_, _) := rfl
  exact ⟨_, _, Run.of_play h, rfl, rfl, rfl, rfl, by decide⟩

end Sysbench.Threads
