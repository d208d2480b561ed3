import Sysbench.Fileio.SeqBounds

/-!
# Fileio/Workers — the worker threads of the file I/O test

A worker takes a request under `exec_mutex` and executes it later, outside of it; between the two
the request is *in flight*.  A `Turn` is one of these two steps of one worker, and a run is any
interleaving of the workers' turns.  In validation mode the random generator keeps the workers off
each other's blocks (`inFlight_distinct`): the table it consults names, for a worker with a data
request in flight, the block of that request, whatever the entries of the other workers are worth.
-/

namespace Sysbench.Fileio

variable {cfg : Config} {g : Globals} {maxTime : ℕ}

/-- Where a worker is in the loop of `worker_thread`. -/
inductive Worker
  | ready
  | holding (r : FileRequest)
  | finished
  | timedOut
  | failed
  deriving DecidableEq, Repr

/-- The generator, the workers, and the operations performed on the files so far, in order. -/
structure Pool where
  gen : GenState
  worker : ℕ → Worker
  disk : List FileRequest

/-- The start of a run, whatever `malloc` left in `per_thread`. -/
def startPool (perThread : ℕ → ℕ × ℤ) : Pool := ⟨initVars perThread, fun _ => .ready, []⟩

/-- How an execution ends: the loop goes on, the time limit is found to have passed, or
`file_execute_request` returned an error. -/
inductive Outcome
  | again
  | timeUp
  | failed
  deriving DecidableEq, Repr

/-- A turn of one worker. -/
inductive Turn
  | take (c : Call)
  | execute (t : ℕ) (o : Outcome)

/-- The worker after `file_get_request` answered it; the null request ends its loop. -/
def Worker.given : Option FileRequest → Worker
  | some r => .holding r
  | .none => .finished

/-- The worker after an execution. -/
def Outcome.next : Outcome → Worker
  | .again => .ready
  | .timeUp => .timedOut
  | .failed => .failed

/-- What a request performs: `--file-fsync-all` adds an fsync to each write and makes the fsync
requests do nothing. -/
def performed (cfg : Config) (r : FileRequest) : List FileRequest :=
  match r.operation with
  | .write => if cfg.fsyncAll then [r, fsyncOf r.fileId] else [r]
  | .fsync => if cfg.fsyncAll then [] else [r]
  | _ => [r]

/-- `file_execute_request` gets past its checks to an operation on a file there is. -/
def executable (cfg : Config) (r : FileRequest) : Bool :=
  checkRequestParameters cfg r = .ok r.fileId && r.fileId < cfg.numFiles && r.operation ≠ .null

/-- Worker `t` moves to `w`. -/
def Pool.put (s : Pool) (t : ℕ) (w : Worker) : Pool :=
  { s with worker := Function.update s.worker t w }

@[simp] theorem Pool.put_gen (s : Pool) (t : ℕ) (w : Worker) : (s.put t w).gen = s.gen := rfl

@[simp] theorem Pool.put_disk (s : Pool) (t : ℕ) (w : Worker) : (s.put t w).disk = s.disk := rfl

@[simp] theorem Pool.put_worker_self (s : Pool) (t : ℕ) (w : Worker) : (s.put t w).worker t = w :=
  Function.update_self ..

theorem Pool.put_worker_of_ne {t u : ℕ} (h : u ≠ t) (s : Pool) (w : Worker) :
    (s.put t w).worker u = s.worker u := Function.update_of_ne h ..

/-- `get_request`, under `exec_mutex`. -/
def Pool.take (cfg : Config) (g : Globals) (s : Pool) (c : Call) : Option Pool :=
  if c.threadId < g.numThreads ∧ s.worker c.threadId = .ready then
    (request cfg g s.gen c).map fun p =>
      { s with gen := p.2 }.put c.threadId (Worker.given p.1)
  else .none

/-- `execute_request` and the check of the time limit.  With synchronous or mapped I/O the operation
is done when the call returns; a request that cannot be executed can only fail. -/
def Pool.execute (cfg : Config) (maxTime : ℕ) (s : Pool) (t : ℕ) (o : Outcome) : Option Pool :=
  match s.worker t with
  | .holding r =>
    if o = .failed then some (s.put t .failed)
    else if cfg.ioMode ≠ .async ∧ executable cfg r ∧ (o = .timeUp → maxTime ≠ 0) then
      some ({ s with disk := s.disk ++ performed cfg r }.put t o.next)
    else .none
  | _ => .none

/-- One turn of one worker. -/
def turn (cfg : Config) (g : Globals) (maxTime : ℕ) (s : Pool) : Turn → Option Pool
  | .take c => s.take cfg g c
  | .execute t o => s.execute cfg maxTime t o

/-! ## What a turn does -/

theorem Pool.take_cases {s s' : Pool} {c : Call} (h : s.take cfg g c = some s') :
    c.threadId < g.numThreads ∧ s.worker c.threadId = .ready ∧
      ∃ o gen, request cfg g s.gen c = some (o, gen) ∧
        s' = { s with gen := gen }.put c.threadId (Worker.given o) := by
  unfold Pool.take at h
  split at h
  next hready =>
    obtain ⟨p, hp, rfl⟩ := Option.map_eq_some_iff.mp h
    exact ⟨hready.1, hready.2, p.1, p.2, hp, rfl⟩
  next => cases h

theorem Pool.execute_cases {s s' : Pool} {t : ℕ} {o : Outcome}
    (h : s.execute cfg maxTime t o = some s') :
    ∃ r, s.worker t = .holding r ∧
      (o = .failed ∧ s' = s.put t .failed ∨
        o ≠ .failed ∧ executable cfg r = true ∧
          s' = { s with disk := s.disk ++ performed cfg r }.put t o.next) := by
  unfold Pool.execute at h
  split at h
  next r hr =>
    refine ⟨r, hr, ?_⟩
    split_ifs at h with ho hex
    · exact Or.inl ⟨ho, (Option.some.inj h).symm⟩
    · exact Or.inr ⟨ho, hex.2.1, (Option.some.inj h).symm⟩
  next => cases h

theorem Outcome.next_ne_holding (o : Outcome) (r : FileRequest) : o.next ≠ .holding r := by
  cases o <;> exact Worker.noConfusion

/-- **A turn changes one worker**, who gives up the request it executes. -/
theorem holding_of_execute {s s' : Pool} {t u : ℕ} {o : Outcome} {r : FileRequest}
    (h : s.execute cfg maxTime t o = some s') (hu : s'.worker u = .holding r) :
    u ≠ t ∧ s.worker u = .holding r := by
  have hput : ∃ s₁ : Pool, s₁.worker = s.worker ∧ s' = s₁.put t o.next := by
    obtain ⟨r', -, ⟨rfl, rfl⟩ | ⟨-, -, rfl⟩⟩ := Pool.execute_cases h
    · exact ⟨s, rfl, rfl⟩
    · exact ⟨{ s with disk := s.disk ++ performed cfg r' }, rfl, rfl⟩
  obtain ⟨s₁, hw, rfl⟩ := hput
  rcases eq_or_ne u t with rfl | hne
  · rw [Pool.put_worker_self] at hu
    exact absurd hu (Outcome.next_ne_holding o r)
  · rw [Pool.put_worker_of_ne hne, hw] at hu
    exact ⟨hne, hu⟩

/-- After a turn of `take`, a worker holds what it held, or what it was given. -/
theorem holding_of_take {s s' : Pool} {u : ℕ} {c : Call} {r : FileRequest}
    (h : s.take cfg g c = some s') (hu : s'.worker u = .holding r) :
    u ≠ c.threadId ∧ s.worker u = .holding r ∨
      u = c.threadId ∧ request cfg g s.gen c = some (some r, s'.gen) := by
  obtain ⟨-, -, o, gen, hreq, rfl⟩ := Pool.take_cases h
  rcases eq_or_ne u c.threadId with rfl | hne
  · rw [Pool.put_worker_self] at hu
    cases o with
    | none => cases hu
    | some r' =>
      obtain rfl := Worker.holding.inj hu
      exact Or.inr ⟨rfl, hreq⟩
  · rw [Pool.put_worker_of_ne hne] at hu
    exact Or.inl ⟨hne, hu⟩

/-! ## The table of blocks in use -/

/-- The block the `retry` loop settles on is in no other worker's entry. -/
theorem rndRetry_free {t : ℕ} {s : GenState} {block : ℕ × ℤ} (hv : g.validate = true) :
    ∀ {draws : List ℤ}, rndRetry cfg g t s draws = .ok block → blockTaken g s t block = false
  | [], h => nomatch h
  | d :: draws, h => by
      obtain ⟨b, -, h⟩ := except_bind_eq_ok.mp h
      split at h
      · exact rndRetry_free hv h
      next hfree =>
        obtain rfl := Except.ok.inj h
        simpa [hv] using hfree

theorem blockTaken_eq_false {t : ℕ} {s : GenState} {block : ℕ × ℤ} :
    blockTaken g s t block = false ↔ ∀ u < g.numThreads, u ≠ t → s.perThread u ≠ block := by
  simp [blockTaken]

/-- **What a call of the random generator does to the table**: a data request enters its block,
which was in no other entry; the other requests leave the table alone. -/
theorem perThread_of_request {s s' : GenState} {c : Call} {o : Option FileRequest}
    (hrnd : cfg.testMode.sequential = false) (hv : g.validate = true)
    (h : request cfg g s c = some (o, s')) :
    (∃ r, o = some r ∧ s'.perThread = Function.update s.perThread c.threadId (r.fileId, r.pos) ∧
      ∀ u < g.numThreads, u ≠ c.threadId → s.perThread u ≠ (r.fileId, r.pos)) ∨
    ((∀ r, o = some r → r.isData = false) ∧ s'.perThread = s.perThread) := by
  have hok := request_rnd hrnd h
  unfold fileGetRndRequest at hok
  split_ifs at hok
  · refine Or.inr ?_
    obtain ⟨rfl, rfl⟩ := Prod.ext_iff.mp (Except.ok.inj hok)
    unfold endRequest
    split
    · exact ⟨fun r hr => Option.some.inj hr ▸ fsyncOf_isData _, rfl⟩
    · exact ⟨by simp, rfl⟩
  · refine Or.inr ?_
    obtain ⟨rfl, rfl⟩ := Prod.mk.inj (Except.ok.inj hok)
    refine ⟨fun r hr => Option.some.inj hr ▸ fsyncOf_isData _, ?_⟩
    split <;> rfl
  · refine Or.inl ?_
    obtain ⟨block, hblock, hok⟩ := except_bind_eq_ok.mp hok
    obtain ⟨rfl, rfl⟩ := Prod.mk.inj (Except.ok.inj hok)
    have hfree := blockTaken_eq_false.mp (rndRetry_free hv hblock)
    exact ⟨_, rfl, rfl, hfree⟩

/-- **The table covers the requests in flight**: the entry of a worker that holds a data request is
the block of that request, and no two such entries are the same. -/
structure Exclusive (g : Globals) (s : Pool) : Prop where
  thread_lt : ∀ t r, s.worker t = .holding r → t < g.numThreads
  entry : ∀ t r, s.worker t = .holding r → r.isData → s.gen.perThread t = (r.fileId, r.pos)
  distinct : ∀ t u r r', t ≠ u → s.worker t = .holding r → s.worker u = .holding r' →
    r.isData → r'.isData → (r.fileId, r.pos) ≠ (r'.fileId, r'.pos)

theorem exclusive_execute {s s' : Pool} {t : ℕ} {o : Outcome} (hI : Exclusive g s)
    (h : s.execute cfg maxTime t o = some s') : Exclusive g s' := by
  have hgen : s'.gen = s.gen := by
    obtain ⟨r, -, ⟨-, rfl⟩ | ⟨-, -, rfl⟩⟩ := Pool.execute_cases h <;> rfl
  refine ⟨fun u r hu => ?_, fun u r hu hr => ?_, fun u v r r' huv hu hv hr hr' => ?_⟩
  · exact hI.thread_lt u r (holding_of_execute h hu).2
  · rw [hgen]
    exact hI.entry u r (holding_of_execute h hu).2 hr
  · exact hI.distinct u v r r' huv (holding_of_execute h hu).2 (holding_of_execute h hv).2 hr hr'

/-- The block just entered differs from that of every request in flight. -/
theorem Exclusive.fresh {s s' : Pool} {c : Call} {u : ℕ} {r r' : FileRequest} (hI : Exclusive g s)
    (hrnd : cfg.testMode.sequential = false) (hv : g.validate = true)
    (h : request cfg g s.gen c = some (some r, s'.gen)) (hu : s.worker u = .holding r')
    (hne : u ≠ c.threadId) (hr : r.isData) (hr' : r'.isData) :
    (r'.fileId, r'.pos) ≠ (r.fileId, r.pos) := by
  obtain ⟨r₁, heq, -, hfree⟩ | ⟨hdata, -⟩ := perThread_of_request hrnd hv h
  · obtain rfl := Option.some.inj heq
    rw [← hI.entry u r' hu hr']
    exact hfree u (hI.thread_lt u r' hu) hne
  · rw [hdata r rfl] at hr
    cases hr

theorem exclusive_take {s s' : Pool} {c : Call} (hrnd : cfg.testMode.sequential = false)
    (hv : g.validate = true) (hI : Exclusive g s) (h : s.take cfg g c = some s') :
    Exclusive g s' := by
  obtain ⟨hlt, -, o, gen, hreq, rfl⟩ := Pool.take_cases h
  refine ⟨fun u r hu => ?_, fun u r hu hr => ?_, fun u v r r' huv hu hv' hr hr' => ?_⟩
  · rcases holding_of_take h hu with ⟨-, hu⟩ | ⟨rfl, -⟩
    · exact hI.thread_lt u r hu
    · exact hlt
  · -- the worker that took the request has its new entry, the others the one they had
    rcases perThread_of_request hrnd hv hreq with ⟨r₁, rfl, htab, -⟩ | ⟨hdata, htab⟩
    all_goals change gen.perThread u = _; rw [htab]
    · rcases holding_of_take h hu with ⟨hne, hold⟩ | ⟨rfl, hnew⟩
      · rw [Function.update_of_ne hne]
        exact hI.entry u r hold hr
      · rw [Function.update_self]
        obtain ⟨rfl⟩ : r₁ = r := by simpa using hreq.symm.trans hnew
        rfl
    · rcases holding_of_take h hu with ⟨hne, hold⟩ | ⟨rfl, hnew⟩
      · exact hI.entry u r hold hr
      · obtain rfl : o = some r := by simpa using hreq.symm.trans hnew
        rw [hdata r rfl] at hr
        cases hr
  · rcases holding_of_take h hu with ⟨hne, hold⟩ | ⟨rfl, hnew⟩ <;>
      rcases holding_of_take h hv' with ⟨hne', hold'⟩ | ⟨rfl, hnew'⟩
    · exact hI.distinct u v r r' huv hold hold' hr hr'
    · exact hI.fresh hrnd hv hnew' hold hne hr' hr
    · exact (hI.fresh hrnd hv hnew hold' hne' hr hr').symm
    · exact absurd rfl huv

/-- **No two workers ever have data requests for one block in flight**, in the random modes with
validation, whatever the table contained at the start. -/
theorem inFlight_distinct (cfg : Config) (g : Globals) (maxTime : ℕ) (perThread : ℕ → ℕ × ℤ)
    {hist : List (Pool × Turn)} {s : Pool} (hrnd : cfg.testMode.sequential = false)
    (hv : g.validate = true) (h : Run (turn cfg g maxTime) (startPool perThread) hist s) :
    ∀ t u r r', t ≠ u → s.worker t = .holding r → s.worker u = .holding r' →
      r.isData → r'.isData → (r.fileId, r.pos) ≠ (r'.fileId, r'.pos) := by
  refine (h.invariant (Exclusive g) (fun _ => True) ?_ ?_ (fun _ _ => trivial)).distinct
  · exact ⟨fun t r ht => (nomatch ht), fun t r ht => (nomatch ht),
      fun t u r r' _ ht => (nomatch ht)⟩
  · intro s i s' hI _ hs
    cases i with
    | take c => exact exclusive_take hrnd hv hI hs
    | execute t o => exact exclusive_execute hI hs

/-- A validation run without a request limit. -/
def validating (numThreads : ℕ) : Globals := ⟨0, true, numThreads, by decide⟩

/-- Two workers, each drawing a block that is in the other's entry before a free one. -/
theorem inFlight_distinct_twoWorkers :
    ∃ hist s r r',
      Run (turn (rndrdConfig 1 96 16 (by decide) (by decide) (by decide)) (validating 2) 0)
        (startPool fun _ => (0, 0)) hist s ∧
      s.worker 0 = .holding r ∧ s.worker 1 = .holding r' ∧
      (r.fileId, r.pos) ≠ (r'.fileId, r'.pos) := by
  have h : (Run.play
      (turn (rndrdConfig 1 96 16 (by decide) (by decide) (by decide)) (validating 2) 0)
      (startPool fun _ => (0, 0)) [.take ⟨0, [5, 20], 0, 0⟩, .take ⟨1, [20, 40], 0, 0⟩]).map
        (fun p => (p.2.worker 0, p.2.worker 1))
        = some (.holding ⟨0, 16, 16, .read⟩, .holding ⟨0, 32, 16, .read⟩) := by
    decide +kernel
  obtain ⟨⟨hist, s⟩, hplay, hs⟩ := Option.map_eq_some_iff.mp h
  obtain ⟨h0, h1⟩ := Prod.mk.inj hs
  exact ⟨hist, s, _, _, Run.of_play hplay, h0, h1,
    inFlight_distinct _ (validating 2) 0 _ rfl rfl (Run.of_play hplay) 0 1 _ _ (by decide) h0 h1 rfl
      rfl⟩

end Sysbench.Fileio
