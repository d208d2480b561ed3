import Sysbench.Machinery.Traces
import Sysbench.Options.Store

/-!
# Workloads/LockTests — the mutexes of the tests `threads` and `mutex`

Both tests allocate an array of mutexes, and their requests lock and unlock them a number of times.
The sizes and the counts are `int` options, stored in `unsigned int` variables and never looked at:
one is a divisor, and one the counter of a `do … while` loop that is decremented before it is
compared.  What the claims of the options mean for a run is said once for any test of this kind
(`LockTest`), and decided for each of the two from its own functions.
-/

namespace Sysbench.Workloads

open Options

/-! ## Tests that lock -/

/-- How a request ends the process, or does not end. -/
inductive LockFault
  | zeroDivisor
  | endless
  deriving DecidableEq, Repr

/-- A test whose requests lock mutexes of an array.  `get` is its `get_request`, with `none` for a
null request; `exec` is its `execute_request`, which locks and unlocks the mutexes with these
indices one after the other, and may depend on what the system answers; `stops` is whether the
worker ends after a request. -/
structure LockTest (σ ρ ι : Type) where
  get : σ → Except LockFault (Option ρ) × σ
  exec : ρ → ι → Except LockFault (List ℕ)
  stops : Bool

/-- Where a worker is: before `get_request`, before `execute_request`, or at its end. -/
inductive LockWorker (ρ : Type)
  | idle
  | holding (r : ρ)
  | done

/-- The globals, the workers, and whether the process is still there. -/
structure LockRun (σ ρ : Type) where
  globals : σ
  worker : ℕ → LockWorker ρ
  alive : Bool

inductive LockMove (ι : Type)
  | get (w : ℕ)
  | exec (w : ℕ) (x : ι)

inductive LockEvent
  | null
  | request
  | locked (indices : List ℕ)
  | fault (f : LockFault)
  deriving DecidableEq

namespace LockTest

variable {σ ρ ι : Type} (t : LockTest σ ρ ι)

/-- All workers before their first request. -/
def start (globals : σ) : LockRun σ ρ := ⟨globals, fun _ => .idle, true⟩

/-- A move of one of the `n` workers. -/
def step (n : ℕ) (s : LockRun σ ρ) : LockMove ι → Option (LockEvent × LockRun σ ρ)
  | .get w =>
    if s.alive ∧ w < n then
      match s.worker w with
      | .idle =>
        let globals := (t.get s.globals).2
        match (t.get s.globals).1 with
        | .error f => some (.fault f, { s with globals, alive := false })
        | .ok none => some (.null, { s with globals, worker := Function.update s.worker w .done })
        | .ok (some r) =>
          some (.request, { s with globals, worker := Function.update s.worker w (.holding r) })
      | _ => none
    else none
  | .exec w x =>
    if s.alive ∧ w < n then
      match s.worker w with
      | .holding r =>
        match t.exec r x with
        | .error f => some (.fault f, { s with alive := false })
        | .ok indices =>
          some (.locked indices,
            { s with worker := Function.update s.worker w (if t.stops then .done else .idle) })
      | _ => none
    else none

/-- Every request locks and unlocks `pairs` times, at valid indices, and none faults. -/
def Sound (pairs : ℤ) (valid : ℕ → Prop) : LockEvent → Prop
  | .null | .request => True
  | .locked indices => (indices.length : ℤ) = pairs ∧ ∀ i ∈ indices, valid i
  | .fault _ => False

/-- Every run of any number of workers is sound. -/
def RunsSound (globals : σ) (pairs : ℤ) (valid : ℕ → Prop) : Prop :=
  ∀ n outs s, Trace (t.step n) (start globals) outs s → ∀ e ∈ outs, Sound pairs valid e

variable {t} {pairs : ℤ} {valid : ℕ → Prop}

/-- **What a move can do.** -/
theorem step_cases {n : ℕ} {s s' : LockRun σ ρ} {i : LockMove ι} {e : LockEvent}
    (h : t.step n s i = some (e, s')) :
    (∃ f, (t.get s.globals).1 = .error f ∧ e = .fault f ∧ s'.worker = s.worker) ∨
    (∃ w, (t.get s.globals).1 = .ok none ∧ e = .null ∧
      s'.worker = Function.update s.worker w .done) ∨
    (∃ w r, (t.get s.globals).1 = .ok (some r) ∧ e = .request ∧
      s'.worker = Function.update s.worker w (.holding r)) ∨
    (∃ w r x f, s.worker w = .holding r ∧ t.exec r x = .error f ∧ e = .fault f ∧
      s'.worker = s.worker) ∨
    (∃ w r x indices, s.worker w = .holding r ∧ t.exec r x = .ok indices ∧ e = .locked indices ∧
      s'.worker = Function.update s.worker w (if t.stops then .done else .idle)) := by
  cases i with
  | get w =>
    simp only [step] at h
    split at h
    · split at h
      · split at h
        next f hget =>
          obtain ⟨rfl, rfl⟩ := Prod.mk.inj (Option.some.inj h)
          exact .inl ⟨f, hget, rfl, rfl⟩
        next hget =>
          obtain ⟨rfl, rfl⟩ := Prod.mk.inj (Option.some.inj h)
          exact .inr (.inl ⟨w, hget, rfl, rfl⟩)
        next r hget =>
          obtain ⟨rfl, rfl⟩ := Prod.mk.inj (Option.some.inj h)
          exact .inr (.inr (.inl ⟨w, r, hget, rfl, rfl⟩))
      · cases h
    · cases h
  | exec w x =>
    simp only [step] at h
    split at h
    · split at h
      next r hr =>
        split at h
        next f hexec =>
          obtain ⟨rfl, rfl⟩ := Prod.mk.inj (Option.some.inj h)
          exact .inr (.inr (.inr (.inl ⟨w, r, x, f, hr, hexec, rfl, rfl⟩)))
        next indices hexec =>
          obtain ⟨rfl, rfl⟩ := Prod.mk.inj (Option.some.inj h)
          exact .inr (.inr (.inr (.inr ⟨w, r, x, indices, hr, hexec, rfl, rfl⟩)))
      next => cases h
    · cases h

/-- **The rule for sound tests**: requests are handed out without a fault and keep `P`, and a
request with `P` is executed as it should be. -/
theorem runsSound (P : ρ → Prop) (globals : σ)
    (hget : ∀ g, ∃ r g', t.get g = (.ok r, g') ∧ ∀ req, r = some req → P req)
    (hexec : ∀ req x, P req → ∃ indices, t.exec req x = .ok indices ∧
      (indices.length : ℤ) = pairs ∧ ∀ i ∈ indices, valid i) :
    t.RunsSound globals pairs valid := by
  intro n outs s h
  refine (h.invariant (fun outs s => (∀ e ∈ outs, Sound pairs valid e) ∧
    ∀ w req, s.worker w = .holding req → P req) ⟨by simp, ?_⟩ ?_).1
  · intro w req hw
    cases hw
  · intro outs s i e s' ⟨hall, hheld⟩ hs
    obtain ⟨r, g', hg, hP⟩ := hget s.globals
    -- a worker that moved holds nothing, or what it was just given
    have hother : ∀ w lw, (∀ req, lw = .holding req → P req) →
        s'.worker = Function.update s.worker w lw →
        ∀ w' req, s'.worker w' = .holding req → P req := by
      intro w lw hlw hs'
      rw [hs']
      exact (forall_update_of_forall (I := fun lw => ∀ req, lw = LockWorker.holding req → P req)
        hheld).mpr hlw
    rw [List.forall_mem_append, List.forall_mem_singleton]
    obtain ⟨f, hf, rfl, hs'⟩ | ⟨w, hnull, rfl, hs'⟩ | ⟨w, req, hreq, rfl, hs'⟩ |
      ⟨w, req, x, f, hw, hx, rfl, hs'⟩ | ⟨w, req, x, indices, hw, hx, rfl, hs'⟩ := step_cases hs
    · rw [hg] at hf
      cases hf
    · refine ⟨⟨hall, trivial⟩, hother w _ (fun req hreq => ?_) hs'⟩
      cases hreq
    · rw [hg, Except.ok.injEq] at hreq
      refine ⟨⟨hall, trivial⟩, hother w _ (fun req' hreq' => ?_) hs'⟩
      obtain rfl := LockWorker.holding.inj hreq'
      exact hP req hreq
    · obtain ⟨indices, hok, -⟩ := hexec req x (hheld w req hw)
      rw [hok] at hx
      cases hx
    · obtain ⟨indices', hok, hgood⟩ := hexec req x (hheld w req hw)
      rw [hok, Except.ok.injEq] at hx
      obtain rfl := hx
      refine ⟨⟨hall, hgood⟩, hother w _ (fun req' hreq' => ?_) hs'⟩
      split_ifs at hreq'

/-- Sound runs hand out a first request without a fault. -/
theorem RunsSound.get_ne_error {globals : σ} (h : t.RunsSound globals pairs valid) (f : LockFault) :
    (t.get globals).1 ≠ .error f := by
  intro hget
  have hstep : t.step 1 (start globals) (.get 0)
      = some (.fault f, { start globals with globals := (t.get globals).2, alive := false }) := by
    simp [step, start, hget]
  exact h 1 _ _ (Trace.nil.snoc hstep) (.fault f) (by simp)

/-- Sound runs execute a first request as they should. -/
theorem RunsSound.exec_first {globals : σ} {r : ρ} (h : t.RunsSound globals pairs valid)
    (hget : (t.get globals).1 = .ok (some r)) (x : ι) :
    ∃ indices, t.exec r x = .ok indices ∧ (indices.length : ℤ) = pairs ∧
      ∀ i ∈ indices, valid i := by
  set s : LockRun σ ρ :=
    ⟨(t.get globals).2, Function.update (fun _ => .idle) 0 (.holding r), true⟩ with hs
  have hfirst : t.step 1 (start globals) (.get 0) = some (.request, s) := by
    simp [step, start, hget, hs]
  have hrun : Trace (t.step 1) (start globals) [.request] s := Trace.nil.snoc hfirst
  cases hexec : t.exec r x with
  | error f =>
    have hsecond : t.step 1 s (.exec 0 x) = some (.fault f, { s with alive := false }) := by
      simp [step, hs, hexec]
    exact absurd (h 1 _ _ (hrun.snoc hsecond) (.fault f) (by simp)) id
  | ok indices =>
    have hsecond : t.step 1 s (.exec 0 x) = some (.locked indices,
        { s with worker := Function.update s.worker 0 (if t.stops then .done else .idle) }) := by
      simp [step, hs, hexec]
    exact ⟨indices, rfl, h 1 _ _ (hrun.snoc hsecond) (.locked indices) (by simp)⟩

end LockTest

/-! ## The arrays -/

/-- An array of `count` mutexes in a block of `bytes`, each with `size` bytes. -/
structure MutexArray where
  count : ℕ
  size : ℕ
  bytes : ℕ

/-- An index of a mutex that is there and was initialised. -/
def MutexArray.Valid (a : MutexArray) (i : ℕ) : Prop := i < a.count ∧ (i + 1) * a.size ≤ a.bytes

/-- `malloc(count * size)`, if it succeeds, and `pthread_mutex_init` of each. -/
def allocMutexes (malloc : ℕ → Bool) (count size : ℕ) : Except String MutexArray :=
  if malloc (toU64 (count * size : ℕ)) then .ok ⟨count, size, toU64 (count * size : ℕ)⟩
  else .error "Memory allocation failure!"

/-- The sizes of the two element types: `pthread_mutex_t`, and `thread_lock`. -/
def sizeofMutex : ℕ := 40

def sizeofThreadLock : ℕ := sizeofMutex + 256

/-- **The whole array is there**: a number of 32 bits times such a size does not overflow. -/
theorem valid_of_allocMutexes {malloc : ℕ → Bool} {count size : ℕ} {a : MutexArray}
    (h : allocMutexes malloc count size = .ok a) (hcount : count < 2 ^ 32) (hsize : size < 2 ^ 32)
    {i : ℕ} (hi : i < count) : a.Valid i := by
  unfold allocMutexes at h
  split_ifs at h
  obtain rfl := Except.ok.inj h
  have hprod : count * size < 2 ^ 64 := by
    calc count * size < 2 ^ 32 * 2 ^ 32 := Nat.mul_lt_mul'' hcount hsize
      _ = 2 ^ 64 := by norm_num
  refine ⟨hi, ?_⟩
  simp only [toU64_of_lt hprod]
  exact Nat.mul_le_mul_right size hi

/-! ## The test `threads` -/

/-- `thread_yields` and `thread_locks`. -/
structure ThreadsConfig where
  threadYields : ℕ
  threadLocks : ℕ
  deriving DecidableEq

/-- `threads_init`. -/
def threadsInit (opts : Store) : Except (CStr × CStr) ThreadsConfig := do
  let yields ← sbGetValueInt opts (.lit "thread-yields")
  let locks ← sbGetValueInt opts (.lit "thread-locks")
  return ⟨toU32 yields, toU32 locks⟩

/-- `threads_prepare`. -/
def threadsPrepare (malloc : ℕ → Bool) (cfg : ThreadsConfig) : Except String MutexArray :=
  allocMutexes malloc cfg.threadLocks sizeofMutex

/-- `threads_get_request`, over `req_performed`: the `lock_num` of the request. -/
def threadsGetRequest (cfg : ThreadsConfig) (maxRequests reqPerformed : ℕ) :
    Except LockFault (Option ℕ) × ℕ :=
  if 0 < maxRequests ∧ maxRequests ≤ reqPerformed then (.ok none, reqPerformed)
  else if cfg.threadLocks = 0 then (.error .zeroDivisor, reqPerformed)
  else (.ok (some (reqPerformed % cfg.threadLocks)), toU32 (reqPerformed + 1))

/-- `threads_execute_request`. -/
def threadsExecuteRequest (cfg : ThreadsConfig) (lockNum : ℕ) : List ℕ :=
  (List.range cfg.threadYields).map fun _ => lockNum

/-- With locks to choose from, a request is for one of them. -/
theorem threadsGetRequest_lt {cfg : ThreadsConfig} (maxRequests reqPerformed : ℕ)
    (hlocks : 0 < cfg.threadLocks) :
    ∃ r g, threadsGetRequest cfg maxRequests reqPerformed = (.ok r, g) ∧
      ∀ lockNum, r = some lockNum → lockNum < cfg.threadLocks := by
  unfold threadsGetRequest
  split_ifs with hlimit hzero
  · exact ⟨_, _, rfl, by simp⟩
  · exact absurd hzero hlocks.ne'
  · refine ⟨_, _, rfl, fun lockNum hlockNum => ?_⟩
    rw [← Option.some.inj hlockNum]
    exact Nat.mod_lt _ hlocks

/-- The test `threads`. -/
def threadsTest (cfg : ThreadsConfig) (maxRequests : ℕ) : LockTest ℕ ℕ Unit where
  get := threadsGetRequest cfg maxRequests
  exec := fun lockNum _ => .ok (threadsExecuteRequest cfg lockNum)
  stops := false

/-! ## The test `mutex` -/

/-- `mutex_num`, `mutex_loops` and `mutex_locks`. -/
structure MutexConfig where
  mutexNum : ℕ
  mutexLoops : ℕ
  mutexLocks : ℕ
  deriving DecidableEq

/-- `sb_mutex_request_t`. -/
structure MutexRequest where
  nlocks : ℕ
  nloops : ℕ

/-- `mutex_init`, up to the allocation. -/
def mutexInit (opts : Store) : Except (CStr × CStr) MutexConfig := do
  let num ← sbGetValueInt opts (.lit "mutex-num")
  let loops ← sbGetValueInt opts (.lit "mutex-loops")
  let locks ← sbGetValueInt opts (.lit "mutex-locks")
  return ⟨toU32 num, toU32 loops, toU32 locks⟩

/-- The allocation of `mutex_init`. -/
def mutexAlloc (malloc : ℕ → Bool) (cfg : MutexConfig) : Except String MutexArray :=
  allocMutexes malloc cfg.mutexNum sizeofThreadLock

/-- `mutex_get_request`. -/
def mutexGetRequest (cfg : MutexConfig) : MutexRequest := ⟨cfg.mutexLocks, cfg.mutexLoops⟩

/-- The `do … while` loop of `mutex_execute_request`, with the values of `rand()`; the empty loop of
`nloops` turns touches no mutex. -/
def mutexLoop (mutexNum : ℕ) (rand : ℕ → ℕ) : (fuel : ℕ) → (nlocks turn : ℕ) →
    Except LockFault (List ℕ)
  | 0, _, _ => .error .endless
  | fuel + 1, nlocks, turn =>
    if mutexNum = 0 then .error .zeroDivisor
    else
      let currentLock := rand turn % mutexNum
      if 0 < toU32 (nlocks - 1) then
        (mutexLoop mutexNum rand fuel (toU32 (nlocks - 1)) (turn + 1)).map (currentLock :: ·)
      else .ok [currentLock]

/-- `mutex_execute_request`; a counter of 32 bits is back at its value after `2 ^ 32` turns. -/
def mutexExecuteRequest (cfg : MutexConfig) (req : MutexRequest) (rand : ℕ → ℕ) :
    Except LockFault (List ℕ) :=
  mutexLoop cfg.mutexNum rand (2 ^ 32) req.nlocks 0

/-- The test `mutex`: one request per thread. -/
def mutexTest (cfg : MutexConfig) : LockTest Unit MutexRequest (ℕ → ℕ) where
  get := fun _ => (.ok (some (mutexGetRequest cfg)), ())
  exec := mutexExecuteRequest cfg
  stops := true

/-- The loop for a counter that is not 0. -/
theorem mutexLoop_of_pos {mutexNum : ℕ} (hnum : 0 < mutexNum) (rand : ℕ → ℕ) {nlocks : ℕ}
    (hpos : 0 < nlocks) (hlt : nlocks < 2 ^ 32) {fuel : ℕ} (hfuel : nlocks ≤ fuel) (turn : ℕ) :
    ∃ indices, mutexLoop mutexNum rand fuel nlocks turn = .ok indices ∧
      indices.length = nlocks ∧ ∀ i ∈ indices, i < mutexNum := by
  have hindex : ∀ turn, rand turn % mutexNum < mutexNum := fun turn => Nat.mod_lt _ hnum
  induction nlocks generalizing fuel turn with
  | zero => exact absurd hpos (lt_irrefl 0)
  | succ nlocks ih =>
    obtain ⟨fuel, rfl⟩ := Nat.exists_eq_succ_of_ne_zero (Nat.ne_zero_of_lt hfuel)
    have hnext : toU32 (((nlocks + 1 : ℕ) : ℤ) - 1) = nlocks := by
      unfold toU32
      omega
    rw [mutexLoop, if_neg hnum.ne', hnext]
    rcases Nat.eq_zero_or_pos nlocks with rfl | hpos'
    · exact ⟨_, if_neg (lt_irrefl 0), rfl, by simpa using hindex turn⟩
    · obtain ⟨indices, hloop, hlen, hall⟩ :=
        ih hpos' (by omega) (Nat.le_of_succ_le_succ hfuel) (turn + 1)
      refine ⟨(rand turn % mutexNum) :: indices, ?_, by simp [hlen], ?_⟩
      · rw [if_pos hpos', hloop]
        rfl
      · exact List.forall_mem_cons.mpr ⟨hindex turn, hall⟩

/-- **The loop ends, after as many turns as the counter says**; a counter of 0 says `2 ^ 32`. -/
theorem mutexLoop_eq {mutexNum : ℕ} (hnum : 0 < mutexNum) (rand : ℕ → ℕ) {nlocks : ℕ}
    (hlt : nlocks < 2 ^ 32) :
    ∃ indices, mutexLoop mutexNum rand (2 ^ 32) nlocks 0 = .ok indices ∧
      indices.length = (if nlocks = 0 then 2 ^ 32 else nlocks) ∧ ∀ i ∈ indices, i < mutexNum := by
  rcases Nat.eq_zero_or_pos nlocks with rfl | hpos
  · have hnext : toU32 (((0 : ℕ) : ℤ) - 1) = 2 ^ 32 - 1 := by decide
    have hpos : 0 < 2 ^ 32 - 1 := by decide
    obtain ⟨indices, hloop, hlen, hall⟩ := mutexLoop_of_pos hnum rand hpos (by decide) le_rfl 1
    refine ⟨(rand 0 % mutexNum) :: indices, ?_, ?_, ?_⟩
    · rw [show 2 ^ 32 = (2 ^ 32 - 1) + 1 from rfl, mutexLoop, if_neg hnum.ne', hnext,
        if_pos (by decide), hloop]
      rfl
    · rw [List.length_cons, hlen]
      rfl
    · exact List.forall_mem_cons.mpr ⟨Nat.mod_lt _ hnum, hall⟩
  · obtain ⟨indices, hloop, hlen, hall⟩ := mutexLoop_of_pos hnum rand hpos hlt hlt.le 0
    exact ⟨indices, hloop, by rw [hlen, if_neg hpos.ne'], hall⟩

/-! ## When the tests are sound -/

/-- An `int` option is an `int`. -/
theorem sbGetValueInt_bounds {opts : Store} {name : CStr} {x : ℤ}
    (h : sbGetValueInt opts name = .ok x) : -2 ^ 31 ≤ x ∧ x < 2 ^ 31 := by
  unfold sbGetValueInt sbGetValue at h
  cases hfind : findOption opts name with
  | none =>
    rw [hfind] at h
    obtain rfl := Except.ok.inj h
    decide
  | some o =>
    rw [hfind] at h
    simp only [Option.elim_some, sbOptToInt] at h
    split at h
    · obtain rfl := Except.ok.inj h
      decide
    · split_ifs at h with hrange
      obtain rfl := Except.ok.inj h
      omega

theorem toU32_pos_iff {x : ℤ} (h : -2 ^ 31 ≤ x ∧ x < 2 ^ 31) : 0 < toU32 x ↔ x ≠ 0 := by
  unfold toU32
  omega

theorem toU32_cast_eq_iff {x : ℤ} (h : -2 ^ 31 ≤ x ∧ x < 2 ^ 31) : (toU32 x : ℤ) = x ↔ 0 ≤ x := by
  unfold toU32
  omega

/-- **The test `threads`** is sound when there are locks and no negative number of yields. -/
theorem threads_runsSound_iff {malloc : ℕ → Bool} {yields locks : ℤ} {a : MutexArray}
    (hyields : -2 ^ 31 ≤ yields ∧ yields < 2 ^ 31) (hlocks : -2 ^ 31 ≤ locks ∧ locks < 2 ^ 31)
    (halloc : threadsPrepare malloc ⟨toU32 yields, toU32 locks⟩ = .ok a) (maxRequests : ℕ) :
    (threadsTest ⟨toU32 yields, toU32 locks⟩ maxRequests).RunsSound 0 yields a.Valid ↔
      locks ≠ 0 ∧ 0 ≤ yields := by
  have hfirst : ¬ (0 < maxRequests ∧ maxRequests ≤ 0) := by omega
  constructor
  · intro h
    have hdiv : 0 < toU32 locks := Nat.pos_of_ne_zero fun h0 =>
      h.get_ne_error .zeroDivisor (by
        simp only [threadsTest, threadsGetRequest, if_neg hfirst, if_pos h0])
    obtain ⟨indices, hexec, hlen, -⟩ := h.exec_first (r := 0 % toU32 locks)
      (by simp only [threadsTest, threadsGetRequest, if_neg hfirst, if_neg hdiv.ne']) ()
    obtain rfl := Except.ok.inj hexec
    rw [threadsExecuteRequest, List.length_map, List.length_range,
      toU32_cast_eq_iff hyields] at hlen
    exact ⟨(toU32_pos_iff hlocks).mp hdiv, hlen⟩
  · rintro ⟨hne, hpos⟩
    have hdiv := (toU32_pos_iff hlocks).mpr hne
    refine LockTest.runsSound (fun lockNum => lockNum < toU32 locks) 0 (fun g => ?_) ?_
    · exact threadsGetRequest_lt maxRequests g hdiv
    · intro lockNum _ hlock
      refine ⟨_, rfl, ?_, fun i hi => ?_⟩
      · rw [threadsExecuteRequest, List.length_map, List.length_range]
        exact (toU32_cast_eq_iff hyields).mpr hpos
      · obtain ⟨_, -, rfl⟩ := List.mem_map.mp hi
        exact valid_of_allocMutexes halloc (toU32_lt locks) (by decide) hlock

/-- **The test `mutex`** is sound when there are mutexes and at least one lock to do. -/
theorem mutex_runsSound_iff {malloc : ℕ → Bool} {num loops locks : ℤ} {a : MutexArray}
    (hnum : -2 ^ 31 ≤ num ∧ num < 2 ^ 31) (hlocks : -2 ^ 31 ≤ locks ∧ locks < 2 ^ 31)
    (halloc : mutexAlloc malloc ⟨toU32 num, toU32 loops, toU32 locks⟩ = .ok a) :
    (mutexTest ⟨toU32 num, toU32 loops, toU32 locks⟩).RunsSound () locks a.Valid ↔
      num ≠ 0 ∧ 1 ≤ locks := by
  constructor
  · intro h
    obtain ⟨indices, hexec, hlen, -⟩ :=
      h.exec_first (r := ⟨toU32 locks, toU32 loops⟩) rfl fun _ => 0
    have hne : num ≠ 0 := by
      rintro rfl
      cases hexec
    have hpos := (toU32_pos_iff hnum).mpr hne
    obtain ⟨indices', hexec', hlen', -⟩ := mutexLoop_eq hpos (fun _ => 0) (toU32_lt locks)
    obtain rfl : indices = indices' := Except.ok.inj (hexec.symm.trans hexec')
    refine ⟨hne, ?_⟩
    rw [← hlen, hlen']
    split_ifs
    · decide
    · omega
  · rintro ⟨hne, hone⟩
    have hpos := (toU32_pos_iff hnum).mpr hne
    refine LockTest.runsSound (fun req => req.nlocks = toU32 locks) () (fun _ => ?_) ?_
    · refine ⟨_, _, rfl, fun req hreq => ?_⟩
      rw [← Option.some.inj hreq]
      rfl
    · rintro req rand hreq
      obtain ⟨indices, hexec, hlen, hall⟩ := mutexLoop_eq hpos rand (toU32_lt locks)
      have hnonzero := ((toU32_pos_iff hlocks).mpr (by omega)).ne'
      refine ⟨indices, ?_, ?_, fun i hi => ?_⟩
      · rw [← hreq] at hexec
        exact hexec
      · rw [hlen, if_neg hnonzero]
        exact (toU32_cast_eq_iff hlocks).mpr (by omega)
      · exact valid_of_allocMutexes halloc (toU32_lt num) (by decide) (hall i hi)

/-- **When the requests of both tests do what the options say**: with any options that are accepted
and arrays that are allocated, all runs of any number of workers lock valid indices, never divide by
0, and lock as often as the options say, exactly when neither array is empty, the number of yields
is not negative and the number of locks is at least 1. -/
theorem lockTests_runsSound_iff {opts : Store} {yields threadLocks num mutexLocks : ℤ}
    {tcfg : ThreadsConfig} {mcfg : MutexConfig} {malloc : ℕ → Bool} {ta ma : MutexArray}
    (hyields : sbGetValueInt opts (.lit "thread-yields") = .ok yields)
    (hthreadLocks : sbGetValueInt opts (.lit "thread-locks") = .ok threadLocks)
    (hnum : sbGetValueInt opts (.lit "mutex-num") = .ok num)
    (hmutexLocks : sbGetValueInt opts (.lit "mutex-locks") = .ok mutexLocks)
    (ht : threadsInit opts = .ok tcfg) (hm : mutexInit opts = .ok mcfg)
    (hta : threadsPrepare malloc tcfg = .ok ta) (hma : mutexAlloc malloc mcfg = .ok ma)
    (maxRequests : ℕ) :
    ((threadsTest tcfg maxRequests).RunsSound 0 yields ta.Valid ∧
        (mutexTest mcfg).RunsSound () mutexLocks ma.Valid) ↔
      (threadLocks ≠ 0 ∧ 0 ≤ yields) ∧ num ≠ 0 ∧ 1 ≤ mutexLocks := by
  obtain rfl : tcfg = ⟨toU32 yields, toU32 threadLocks⟩ := by
    rw [threadsInit, hyields, hthreadLocks] at ht
    exact (Except.ok.inj ht).symm
  obtain ⟨loops, rfl⟩ : ∃ loops, mcfg = ⟨toU32 num, toU32 loops, toU32 mutexLocks⟩ := by
    rw [mutexInit, hnum, hmutexLocks] at hm
    obtain ⟨num', hnum', hrest⟩ := except_bind_eq_ok.mp hm
    obtain rfl := Except.ok.inj hnum'
    obtain ⟨loops, -, hcfg⟩ := except_bind_eq_ok.mp hrest
    exact ⟨loops, (Except.ok.inj hcfg).symm⟩
  rw [threads_runsSound_iff (sbGetValueInt_bounds hyields) (sbGetValueInt_bounds hthreadLocks) hta,
    mutex_runsSound_iff (sbGetValueInt_bounds hnum) (sbGetValueInt_bounds hmutexLocks) hma]

/-- `threads_args` and `mutex_args`. -/
def lockArgs : List Arg :=
  [⟨.lit "thread-yields", .int, some (.lit "1000")⟩, ⟨.lit "thread-locks", .int, some (.lit "8")⟩,
    ⟨.lit "mutex-num", .int, some (.lit "4096")⟩, ⟨.lit "mutex-locks", .int, some (.lit "50000")⟩,
    ⟨.lit "mutex-loops", .int, some (.lit "10000")⟩]

/-- The options before the command line is read. -/
def lockOptions : Store := (sbRegisterArgSet (fun _ => none) [] lockArgs).1

/-- The default options. -/
theorem lockTests_runsSound_default :
    ((threadsTest ⟨1000, 8⟩ 10000).RunsSound 0 1000 (MutexArray.Valid ⟨8, 40, 320⟩) ∧
        (mutexTest ⟨4096, 10000, 50000⟩).RunsSound () 50000
          (MutexArray.Valid ⟨4096, 296, 1212416⟩)) ↔
      ((8 : ℤ) ≠ 0 ∧ (0 : ℤ) ≤ 1000) ∧ (4096 : ℤ) ≠ 0 ∧ (1 : ℤ) ≤ 50000 :=
  have hyields : sbGetValueInt lockOptions (.lit "thread-yields") = .ok 1000 := by decide +kernel
  have hta : threadsPrepare (fun _ => true) ⟨1000, 8⟩ = .ok ⟨8, 40, 320⟩ := rfl
  lockTests_runsSound_iff hyields (by decide +kernel) (by decide +kernel) (by decide +kernel)
    (by decide +kernel) (by decide +kernel) hta rfl 10000

/-- **`--thread-locks=0`** is accepted, and the first request divides by it. -/
theorem threads_zero_locks :
    ∃ opts a outs s, threadsInit opts = .ok ⟨1000, 0⟩ ∧
      threadsPrepare (fun _ => true) ⟨1000, 0⟩ = .ok a ∧
      Trace ((threadsTest ⟨1000, 0⟩ 10000).step 1) (LockTest.start 0) outs s ∧
      outs = [.fault .zeroDivisor] ∧
      ¬ (threadsTest ⟨1000, 0⟩ 10000).RunsSound 0 1000 a.Valid := by
  have hfirst : (threadsTest ⟨1000, 0⟩ 10000).step 1 (LockTest.start 0) (.get 0)
      = some (.fault .zeroDivisor, _) := rfl
  have htrace := Trace.nil.snoc hfirst
  refine ⟨(setOption (fun _ => none) lockOptions (.lit "thread-locks") (some (.lit "0")) .int).1, _,
    _, _, by decide +kernel, rfl, htrace, rfl, fun h => ?_⟩
  exact h 1 _ _ htrace (.fault .zeroDivisor) (List.mem_singleton_self _)

end Sysbench.Workloads
