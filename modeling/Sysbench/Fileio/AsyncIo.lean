import Mathlib.Data.List.TakeWhile
import Sysbench.Fileio.Requests
import Sysbench.Machinery.Traces

/-!
# Fileio/AsyncIo — asynchronous I/O

A thread submits its reads and writes to the kernel and goes on while fewer than
`--file-async-backlog` of them are queued; otherwise it waits for at least one to complete.  An
fsync is made at once, in this mode too: `file_fsync` tests for the synchronous call first, and its
asynchronous branch is never taken.  The kernel completes what is submitted in any order and with
any result.  Each thread has its own
context and its own buffer, one for all of its operations, so a run is the runs of the threads, each
with the kernel, in any interleaving.

With a backlog of one the buffer belongs to one operation at a time; with any larger one a read is
validated before it has completed (`undisturbed_iff`).  The count of queued requests is right as
long as no completion reports a failure (`consistent_iff`): a failed one is taken from the kernel
with its whole batch, and not subtracted.
-/

namespace Sysbench.Fileio

/-- The settings of asynchronous mode.  `file_async_init` accepts any backlog but zero. -/
structure AioConfig where
  backlog : ℕ
  validate : Bool
  fsyncAll : Bool
  backlog_pos : 0 < backlog

/-- `sb_aio_oper_t`, with the number of its submission. -/
structure AioOper where
  id : ℕ
  type : FileOp
  len : ℤ
  deriving DecidableEq, Repr

/-- The write is followed by an fsync of its own. -/
def AioOper.syncs (cfg : AioConfig) (oper : AioOper) : Bool := cfg.fsyncAll && oper.type = .write

/-- Where a worker is: between two requests; with the buffer of a write filled; in the `file_wait`
of `file_submit_or_wait`; back from a submission that succeeded; with the fsync made that follows a
write; out of its loop after an error; in the `file_wait` of `file_thread_done`; or done. -/
inductive AioPhase
  | idle
  | filled (len : ℤ)
  | waiting (oper : AioOper)
  | submitted (oper : AioOper)
  | synced
  | failed
  | draining (nreq : ℕ)
  | ended
  deriving DecidableEq, Repr

namespace AioPhase

/-- A worker in its loop that does not wait. -/
def running : AioPhase → Bool
  | .idle | .filled _ | .submitted _ | .synced => true
  | _ => false

/-- What `file_execute_request` submits: a read, or a write from a buffer that is filled when in
validation mode. -/
def submits (cfg : AioConfig) (type : FileOp) (len : ℤ) : AioPhase → Bool
  | .idle =>
    match type with
    | .read => true
    | .write => !cfg.validate
    | .fsync | .null => false
  | .filled size => type = .write ∧ len = size
  | _ => false

/-- Where a submission may fail, or the request be refused before it. -/
def submitting : AioPhase → Bool
  | .idle | .filled _ => true
  | _ => false

/-- Where a call of `file_fsync` leaves a worker: that of an fsync request, unless each write has
one, and that one. -/
def afterFsync (cfg : AioConfig) (ok : Bool) : AioPhase → Option AioPhase
  | .idle => if cfg.fsyncAll then none else some (if ok then .idle else .failed)
  | .submitted oper => if oper.syncs cfg then some (if ok then .synced else .failed) else none
  | _ => none

/-- The number of completions a thread waits for. -/
def nreq : AioPhase → Option ℕ
  | .waiting _ => some 1
  | .draining nreq => some nreq
  | _ => none

/-- Where `file_wait` leaves a worker. -/
def afterWait (ok : Bool) : AioPhase → AioPhase
  | .waiting oper => if ok then .submitted oper else .failed
  | .draining _ => .ended
  | phase => phase

end AioPhase

/-- A thread with its `sb_aio_context_t`, and the kernel's side of it: the operations not yet
completed, and the completions not yet obtained by `io_getevents`, in order. -/
structure AioThread where
  nrequests : ℕ
  pending : List AioOper
  completed : List (AioOper × ℤ)
  submissions : ℕ
  phase : AioPhase
  deriving DecidableEq, Repr

/-- After `file_async_init`. -/
def startAio : AioThread := ⟨0, [], [], 0, .idle⟩

/-- One step of the thread or of the kernel.  `submit` and `submitFails` are the two outcomes of
`io_submit` (and of the `malloc` before it), `getevents` and `geteventsFails` those of
`io_getevents`; `fsync` is a call of `file_fsync`; `finish` ends a request, with the result of the
validation where there is one; `leave` is the worker on its way to `file_thread_done`. -/
inductive AioMove
  | fill (len : ℤ)
  | submit (type : FileOp) (len : ℤ)
  | submitFails
  | complete (k : ℕ) (res : ℤ)
  | getevents (nr : ℕ)
  | geteventsFails
  | fsync (ok : Bool)
  | finish (passed : Bool)
  | leave
  deriving DecidableEq, Repr

/-- The check of a completion in `file_wait`. -/
def eventOk (event : AioOper × ℤ) : Bool :=
  match event.1.type with
  | .fsync => event.2 = 0
  | .read | .write => event.2 = event.1.len
  | .null => true

/-- `file_submit_or_wait`, up to the wait. -/
def AioThread.submit (cfg : AioConfig) (s : AioThread) (type : FileOp) (len : ℤ) : AioThread :=
  let oper : AioOper := ⟨s.submissions, type, len⟩
  { s with
    nrequests := s.nrequests + 1
    pending := s.pending ++ [oper]
    submissions := s.submissions + 1
    phase := if s.nrequests + 1 < cfg.backlog then .submitted oper else .waiting oper }

/-- `file_wait` on `nr` completions: each good one is subtracted from the count, the first bad one
ends the loop. -/
def AioThread.fileWait (s : AioThread) (nr : ℕ) : AioThread :=
  let events := s.completed.take nr
  { s with
    nrequests := s.nrequests - (events.takeWhile eventOk).length
    completed := s.completed.drop nr
    phase := s.phase.afterWait (events.all eventOk) }

/-- One step.  `io_getevents` returns at least as many completions as it is asked for and at most a
backlog of them. -/
def aioMove (cfg : AioConfig) (s : AioThread) : AioMove → Option AioThread
  | .fill len =>
    if s.phase = .idle ∧ cfg.validate then some { s with phase := .filled len } else none
  | .submit type len => if s.phase.submits cfg type len then some (s.submit cfg type len) else none
  | .submitFails => if s.phase.submitting then some { s with phase := .failed } else none
  | .complete k res =>
    s.pending[k]?.map fun oper =>
      { s with pending := s.pending.eraseIdx k, completed := s.completed ++ [(oper, res)] }
  | .getevents nr =>
    match s.phase.nreq with
    | some nreq =>
      if nreq ≤ nr ∧ 1 ≤ nr ∧ nr ≤ cfg.backlog ∧ nr ≤ s.completed.length then some (s.fileWait nr)
      else none
    | none => none
  | .geteventsFails =>
    if s.phase.nreq.isSome then some { s with phase := s.phase.afterWait false } else none
  | .fsync ok => (s.phase.afterFsync cfg ok).map fun phase => { s with phase }
  | .finish passed =>
    match s.phase with
    | .submitted oper =>
      if oper.syncs cfg then none
      else if oper.type = .read ∧ cfg.validate ∧ passed = false then
        some { s with phase := .failed }
      else some { s with phase := .idle }
    | .synced => some { s with phase := .idle }
    | _ => none
  | .leave =>
    if s.phase = .idle ∨ s.phase = .failed then
      some { s with phase := if 0 < s.nrequests then .draining s.nrequests else .ended }
    else none

/-- The operations submitted and not yet obtained from `io_getevents`. -/
def AioThread.outstanding (s : AioThread) : ℕ := s.pending.length + s.completed.length

variable {cfg : AioConfig} {s s' : AioThread} {i : AioMove}

/-- A completion is outstanding until it is obtained. -/
theorem outstanding_complete {k : ℕ} {oper : AioOper} (hoper : s.pending[k]? = some oper)
    (res : ℤ) :
    { s with pending := s.pending.eraseIdx k
             completed := s.completed ++ [(oper, res)] }.outstanding = s.outstanding := by
  obtain ⟨hk, -⟩ := List.getElem?_eq_some_iff.mp hoper
  simp only [AioThread.outstanding, List.length_eraseIdx_of_lt hk, List.length_append,
    List.length_singleton]
  omega

theorem running_of_submits {phase : AioPhase} {type : FileOp} {len : ℤ}
    (h : phase.submits cfg type len) : phase.running := by
  cases phase with
  | idle | filled => rfl
  | _ => cases h

/-- An fsync is made by a worker in its loop, which is then still in it or out of it, and has not
begun to wait. -/
theorem running_of_afterFsync {phase phase' : AioPhase} {ok : Bool}
    (h : phase.afterFsync cfg ok = some phase') : phase.running ∧ phase'.nreq = none := by
  cases phase with
  | idle =>
    simp only [AioPhase.afterFsync] at h
    split_ifs at h <;> obtain rfl := Option.some.inj h <;> exact ⟨rfl, rfl⟩
  | submitted oper =>
    simp only [AioPhase.afterFsync] at h
    split_ifs at h <;> obtain rfl := Option.some.inj h <;> exact ⟨rfl, rfl⟩
  | _ => cases h

/-! ## What a step can do -/

/-- **The steps**, each with what it needs of the state before it. -/
inductive AioStep (cfg : AioConfig) (s : AioThread) : AioMove → AioThread → Prop
  | fill {len : ℤ} (hidle : s.phase = .idle) :
      AioStep cfg s (.fill len) { s with phase := .filled len }
  | submit {type : FileOp} {len : ℤ} (hrunning : s.phase.running) :
      AioStep cfg s (.submit type len) (s.submit cfg type len)
  | submitFails : AioStep cfg s .submitFails { s with phase := .failed }
  | complete {k : ℕ} {res : ℤ} {oper : AioOper} (hoper : s.pending[k]? = some oper) :
      AioStep cfg s (.complete k res)
        { s with pending := s.pending.eraseIdx k, completed := s.completed ++ [(oper, res)] }
  | getevents {nr nreq : ℕ} (hnreq : s.phase.nreq = some nreq) (hmin : nreq ≤ nr) (hpos : 1 ≤ nr)
      (hnr : nr ≤ s.completed.length) : AioStep cfg s (.getevents nr) (s.fileWait nr)
  | geteventsFails (hnreq : s.phase.nreq.isSome) :
      AioStep cfg s .geteventsFails { s with phase := s.phase.afterWait false }
  | fsync {ok : Bool} {phase : AioPhase} (hphase : s.phase.afterFsync cfg ok = some phase) :
      AioStep cfg s (.fsync ok) { s with phase }
  | finish {passed : Bool} {phase : AioPhase} (hrunning : s.phase.running)
      (hnext : phase = .failed ∨ phase = .idle) :
      AioStep cfg s (.finish passed) { s with phase }
  | leave (hphase : s.phase = .idle ∨ s.phase = .failed) :
      AioStep cfg s .leave
        { s with phase := if 0 < s.nrequests then .draining s.nrequests else .ended }

theorem aioStep_of_aioMove (h : aioMove cfg s i = some s') : AioStep cfg s i s' := by
  cases i with
  | fill len =>
    obtain ⟨⟨hidle, -⟩, h⟩ := Option.ite_none_right_eq_some.mp h
    obtain rfl := Option.some.inj h
    exact .fill hidle
  | submit type len =>
    obtain ⟨hsubmits, h⟩ := Option.ite_none_right_eq_some.mp h
    obtain rfl := Option.some.inj h
    exact .submit (running_of_submits hsubmits)
  | submitFails =>
    obtain ⟨-, h⟩ := Option.ite_none_right_eq_some.mp h
    obtain rfl := Option.some.inj h
    exact .submitFails
  | complete k res =>
    obtain ⟨oper, hoper, rfl⟩ := Option.map_eq_some_iff.mp h
    exact .complete hoper
  | getevents nr =>
    simp only [aioMove] at h
    split at h
    · rename_i nreq hnreq
      split_ifs at h with hnr
      obtain rfl := Option.some.inj h
      exact .getevents hnreq hnr.1 hnr.2.1 hnr.2.2.2
    · cases h
  | geteventsFails =>
    obtain ⟨hnreq, h⟩ := Option.ite_none_right_eq_some.mp h
    obtain rfl := Option.some.inj h
    exact .geteventsFails hnreq
  | fsync ok =>
    obtain ⟨phase, hphase, rfl⟩ := Option.map_eq_some_iff.mp h
    exact .fsync hphase
  | finish passed =>
    simp only [aioMove] at h
    split at h
    case h_1 oper hphase =>
      have hrunning : s.phase.running := by rw [hphase]; rfl
      split_ifs at h
      · obtain rfl := Option.some.inj h
        exact .finish hrunning (.inl rfl)
      · obtain rfl := Option.some.inj h
        exact .finish hrunning (.inr rfl)
    case h_2 hphase =>
      obtain rfl := Option.some.inj h
      exact .finish (by rw [hphase]; rfl) (.inr rfl)
    case h_3 => cases h
  | leave =>
    obtain ⟨hphase, h⟩ := Option.ite_none_right_eq_some.mp h
    obtain rfl := Option.some.inj h
    exact .leave hphase

/-! ## The count of queued requests -/

/-- **The count is that of the operations outstanding**, and the thread waits for no more of them
than there are. -/
structure Consistent (s : AioThread) : Prop where
  nrequests : s.nrequests = s.outstanding
  draining : ∀ nreq, s.phase = .draining nreq → nreq ≤ s.outstanding

/-- **The batch obtained contains a failure.** -/
def FailedBatch (e : AioThread × AioMove) : Prop :=
  match e.2 with
  | .getevents nr => ∃ event ∈ e.1.completed.take nr, eventOk event = false
  | _ => False

theorem consistent_startAio : Consistent startAio := ⟨rfl, fun _ h => (nomatch h)⟩

/-- The good events before the first bad one are the whole batch exactly when none is bad. -/
theorem length_takeWhile_eq_iff (events : List (AioOper × ℤ)) :
    (events.takeWhile eventOk).length = events.length ↔
      ¬ ∃ event ∈ events, eventOk event = false := by
  constructor
  · rintro h ⟨event, hmem, hbad⟩
    have hall := List.takeWhile_eq_self_iff.mp ((List.takeWhile_prefix eventOk).eq_of_length h)
    exact absurd (hall event hmem) (by simp [hbad])
  · intro h
    refine congrArg List.length (List.takeWhile_eq_self_iff.mpr fun event hmem => ?_)
    by_contra hbad
    exact h ⟨event, hmem, by simpa using hbad⟩

/-- A step that takes nothing from the kernel keeps the count right. -/
theorem Consistent.of_same (hC : Consistent s) (hreq : s'.nrequests = s.nrequests)
    (hout : s'.outstanding = s.outstanding)
    (hdrain : ∀ nreq, s'.phase = .draining nreq → nreq ≤ s.outstanding) : Consistent s' :=
  ⟨by rw [hreq, hout, hC.nrequests], fun nreq h => hout ▸ hdrain nreq h⟩

theorem afterWait_ne_draining {phase : AioPhase} {nreq : ℕ} (h : phase.nreq.isSome) (ok : Bool) :
    phase.afterWait ok ≠ .draining nreq := by
  cases phase with
  | waiting oper => cases ok <;> simp [AioPhase.afterWait]
  | draining => simp [AioPhase.afterWait]
  | _ => cases h

/-- **A wait keeps the count right exactly when its batch has no failure.** -/
theorem consistent_fileWait {nr : ℕ} (hC : Consistent s) (hphase : s.phase.nreq.isSome)
    (hnr : nr ≤ s.completed.length) :
    Consistent (s.fileWait nr) ↔ ¬ FailedBatch (s, .getevents nr) := by
  have hlen : (s.completed.take nr).length = nr := by simp [hnr]
  have hprefix := (List.takeWhile_prefix (l := s.completed.take nr) eventOk).length_le
  have hcount : (s.fileWait nr).nrequests = (s.fileWait nr).outstanding ↔
      ((s.completed.take nr).takeWhile eventOk).length = (s.completed.take nr).length := by
    have hreq := hC.nrequests
    simp only [AioThread.fileWait, AioThread.outstanding, List.length_drop] at hreq ⊢
    omega
  rw [FailedBatch, ← length_takeWhile_eq_iff, ← hcount]
  exact ⟨Consistent.nrequests, fun h =>
    ⟨h, fun nreq hdrain => absurd hdrain (afterWait_ne_draining hphase _)⟩⟩

/-- **One step.** -/
theorem consistent_step (hC : Consistent s) (h : AioStep cfg s i s') :
    Consistent s' ↔ ¬ FailedBatch (s, i) := by
  cases h with
  | fill hidle => exact iff_of_true (hC.of_same rfl rfl nofun) id
  | submit hrunning =>
    refine iff_of_true ⟨?_, fun nreq hdrain => ?_⟩ id
    · have := hC.nrequests
      simp only [AioThread.submit, AioThread.outstanding, List.length_append,
        List.length_singleton] at this ⊢
      omega
    · simp only [AioThread.submit] at hdrain
      split_ifs at hdrain
  | submitFails => exact iff_of_true (hC.of_same rfl rfl nofun) id
  | complete hoper =>
    exact iff_of_true (hC.of_same rfl (outstanding_complete hoper _) hC.draining) id
  | getevents hnreq hmin hpos hnr => exact consistent_fileWait hC (by rw [hnreq]; rfl) hnr
  | geteventsFails hnreq =>
    exact iff_of_true (hC.of_same rfl rfl fun nreq hdrain =>
      absurd hdrain (afterWait_ne_draining hnreq _)) id
  | fsync hphase =>
    refine iff_of_true (hC.of_same rfl rfl fun nreq hdrain => ?_) id
    have hnone := (running_of_afterFsync hphase).2
    dsimp only at hdrain
    rw [hdrain] at hnone
    cases hnone
  | finish hrunning hnext =>
    refine iff_of_true (hC.of_same rfl rfl fun nreq hdrain => ?_) id
    rcases hnext with rfl | rfl <;> cases hdrain
  | leave hphase =>
    refine iff_of_true (hC.of_same rfl rfl fun nreq hdrain => ?_) id
    dsimp only at hdrain
    split_ifs at hdrain
    obtain rfl := AioPhase.draining.inj hdrain
    exact hC.nrequests.le

/-- **The count is right for each thread in every state a run reaches, and `file_thread_done` asks
for no more completions than are outstanding, if and only if no batch obtained contains a
failure.** -/
theorem consistent_iff (cfg : AioConfig) {threads : ℕ} {f : Fin threads → AioThread}
    {hist : List ((Fin threads → AioThread) × (Fin threads × AioMove))}
    (h : Run (each (aioMove cfg)) (fun _ => startAio) hist f) :
    (∀ e ∈ hist, ∀ f', each (aioMove cfg) e.1 e.2 = some f' → ∀ t, Consistent (f' t)) ↔
      ∀ e ∈ hist, ¬ FailedBatch (own e) := by
  refine h.reached_iff (fun f => ∀ t, Consistent (f t)) (fun _ => consistent_startAio) ?_
  intro f i f' hC hf
  obtain ⟨s', hs, rfl⟩ := each_eq_some hf
  exact (forall_update_of_forall hC).trans (consistent_step (hC i.1) (aioStep_of_aioMove hs))

/-- A backlog of one, without validation. -/
def oneByOne : AioConfig := ⟨1, false, false, Nat.one_pos⟩

/-- A read that completes in full. -/
def goodRead : List (Fin 1 × AioMove) :=
  [(0, .submit .read 16), (0, .complete 0 16), (0, .getevents 1), (0, .finish true), (0, .leave)]

theorem consistent_goodRead :
    ∃ hist f, Run (each (aioMove oneByOne)) (fun _ => startAio) hist f ∧
      hist.map Prod.snd = goodRead ∧
      ∀ e ∈ hist, ∀ f', each (aioMove oneByOne) e.1 e.2 = some f' → ∀ t, Consistent (f' t) := by
  have h : Run.play (each (aioMove oneByOne)) (fun _ => startAio) goodRead = some (_, _) := rfl
  have hrun := Run.of_play h
  refine ⟨_, _, hrun, rfl, (consistent_iff oneByOne hrun).mpr ?_⟩
  simp [FailedBatch, own, eventOk, AioThread.submit, startAio]

/-- Without completions `io_getevents` does not return. -/
theorem getevents_eq_none (hnone : s.completed = []) (nr : ℕ) :
    aioMove cfg s (.getevents nr) = none := by
  simp only [aioMove, hnone, List.length_nil]
  split
  · exact if_neg (by omega)
  · rfl

/-- A read that fails, and the worker on its way out. -/
def failedRead : List (Fin 1 × AioMove) :=
  [(0, .submit .read 16), (0, .complete 0 (-5)), (0, .getevents 1), (0, .leave)]

/-- **A failed read leaves the count one too high**: `file_thread_done` waits for a completion that
will not come. -/
theorem failedRead_hangs :
    ∃ hist f, Run (each (aioMove oneByOne)) (fun _ => startAio) hist f ∧
      hist.map Prod.snd = failedRead ∧ (f 0).nrequests = 1 ∧ (f 0).outstanding = 0 ∧
      (f 0).phase = .draining 1 ∧ (∀ nr, aioMove oneByOne (f 0) (.getevents nr) = none) ∧
      ¬ Consistent (f 0) := by
  have h : Run.play (each (aioMove oneByOne)) (fun _ => startAio) failedRead = some (_, _) := rfl
  refine ⟨_, _, Run.of_play h, rfl, rfl, rfl, rfl, getevents_eq_none rfl, fun hC => ?_⟩
  exact absurd hC.nrequests (by decide)

/-! ## The buffer -/

/-- **A step leaves the buffer to those who use it**: a read that is validated has completed, and
the buffer of a write that has not is modified neither by the fill for a later request nor by the
data of a later read. -/
def Undisturbed (cfg : AioConfig) (e : AioThread × AioMove) : Prop :=
  match e.2 with
  | .finish _ => cfg.validate →
      ∀ oper, e.1.phase = .submitted oper → oper.type = .read → oper ∉ e.1.pending
  | .fill _ => ∀ oper ∈ e.1.pending, oper.type ≠ .write
  | .complete k _ => ∀ r, e.1.pending[k]? = some r → r.type = .read →
      ∀ w ∈ e.1.pending, w.type = .write → ¬ w.id < r.id
  | _ => True

/-- **With a backlog of one** a worker that goes on has nothing outstanding, and never more than one
operation is. -/
structure OneAtATime (s : AioThread) : Prop where
  outstanding : s.outstanding ≤ 1
  nrequests : s.outstanding ≤ s.nrequests
  settled : s.phase.running → s.outstanding = 0

theorem oneAtATime_startAio : OneAtATime startAio where
  outstanding := Nat.zero_le 1
  nrequests := le_rfl
  settled _ := rfl

/-- A step that takes nothing from the kernel and gives it nothing. -/
theorem OneAtATime.of_same (hO : OneAtATime s) (hreq : s'.nrequests = s.nrequests)
    (hout : s'.outstanding = s.outstanding) (hsettled : s'.phase.running → s.outstanding = 0) :
    OneAtATime s' :=
  ⟨hout ▸ hO.outstanding, by rw [hout, hreq]; exact hO.nrequests, fun h => hout ▸ hsettled h⟩

theorem OneAtATime.pending_eq_nil (hO : OneAtATime s) (h : s.phase.running) : s.pending = [] :=
  List.length_eq_zero_iff.mp (Nat.eq_zero_of_add_eq_zero_right (hO.settled h))

/-- An operation that the kernel has is the only one. -/
theorem OneAtATime.eq_of_mem_pending {k : ℕ} {r w : AioOper} (hO : OneAtATime s)
    (hr : s.pending[k]? = some r) (hw : w ∈ s.pending) : w = r := by
  have hlen : s.pending.length ≤ 1 := le_trans (Nat.le_add_right _ _) hO.outstanding
  obtain ⟨x, hx⟩ : ∃ x, s.pending = [x] := by
    refine List.length_eq_one_iff.mp (le_antisymm hlen ?_)
    exact List.length_pos_of_mem hw
  rw [hx] at hr hw
  have hmem := List.mem_of_getElem? hr
  rw [List.mem_singleton.mp hw, List.mem_singleton.mp hmem]

theorem oneAtATime_submit {type : FileOp} {len : ℤ} (hone : cfg.backlog = 1) (hO : OneAtATime s)
    (hrunning : s.phase.running) : OneAtATime (s.submit cfg type len) := by
  have hzero := hO.settled hrunning
  have hout : (s.submit cfg type len).outstanding = 1 := by
    simp only [AioThread.submit, AioThread.outstanding, List.length_append,
      List.length_singleton] at hzero ⊢
    omega
  have hphase : (s.submit cfg type len).phase = .waiting ⟨s.submissions, type, len⟩ := by
    simp [AioThread.submit, hone]
  refine ⟨hout.le, ?_, fun h => ?_⟩
  · rw [hout]
    exact Nat.succ_pos _
  · rw [hphase] at h
    cases h

theorem oneAtATime_fileWait {nr : ℕ} (hO : OneAtATime s) (hpos : 1 ≤ nr)
    (hnr : nr ≤ s.completed.length) : OneAtATime (s.fileWait nr) := by
  have hzero : (s.fileWait nr).outstanding = 0 := by
    have := hO.outstanding
    simp only [AioThread.fileWait, AioThread.outstanding, List.length_drop] at this ⊢
    omega
  exact ⟨by omega, by omega, fun _ => hzero⟩

/-- **One step with a backlog of one.** -/
theorem oneAtATime_step (hone : cfg.backlog = 1) (hO : OneAtATime s) (h : AioStep cfg s i s') :
    OneAtATime s' ∧ Undisturbed cfg (s, i) := by
  cases h with
  | fill hidle =>
    have hrunning : s.phase.running := by rw [hidle]; rfl
    refine ⟨hO.of_same rfl rfl fun _ => hO.settled hrunning, ?_⟩
    simp [Undisturbed, hO.pending_eq_nil hrunning]
  | submit hrunning => exact ⟨oneAtATime_submit hone hO hrunning, trivial⟩
  | submitFails => exact ⟨hO.of_same rfl rfl nofun, trivial⟩
  | complete hoper =>
    refine ⟨hO.of_same rfl (outstanding_complete hoper _) hO.settled, ?_⟩
    intro r hr _ w hw _
    rw [hO.eq_of_mem_pending hr hw]
    exact lt_irrefl _
  | getevents hnreq hmin hpos hnr => exact ⟨oneAtATime_fileWait hO hpos hnr, trivial⟩
  | geteventsFails hnreq =>
    refine ⟨hO.of_same rfl rfl fun hrunning => ?_, trivial⟩
    cases hphase : s.phase with
    | waiting oper => simp [AioPhase.afterWait, AioPhase.running, hphase] at hrunning
    | draining nreq => simp [AioPhase.afterWait, AioPhase.running, hphase] at hrunning
    | _ => rw [hphase] at hnreq; cases hnreq
  | fsync hphase =>
    exact ⟨hO.of_same rfl rfl fun _ => hO.settled (running_of_afterFsync hphase).1, trivial⟩
  | finish hrunning hnext =>
    refine ⟨hO.of_same rfl rfl fun _ => hO.settled hrunning, fun _ _ _ _ => ?_⟩
    simp [hO.pending_eq_nil hrunning]
  | leave hphase =>
    refine ⟨hO.of_same rfl rfl fun hrunning => ?_, trivial⟩
    dsimp only at hrunning
    split_ifs at hrunning
    · cases hrunning
    · cases hrunning

/-- **The buffer is left alone in all runs of any threads exactly with a backlog of one.** -/
theorem undisturbed_iff (cfg : AioConfig) (hvalidate : cfg.validate = true) :
    (∀ threads hist (f : Fin threads → AioThread),
      Run (each (aioMove cfg)) (fun _ => startAio) hist f → ∀ e ∈ hist, Undisturbed cfg (own e)) ↔
      cfg.backlog = 1 := by
  constructor
  · intro hall
    by_contra hne
    -- the read is validated as soon as it has been submitted
    have hlt : 0 + 1 < cfg.backlog := lt_of_le_of_ne cfg.backlog_pos (Ne.symm hne)
    have hsubmit : each (aioMove cfg) (fun _ : Fin 1 => startAio) (0, .submit .read 16)
        = some (Function.update (fun _ => startAio) 0
          ⟨1, [⟨0, .read, 16⟩], [], 1, .submitted ⟨0, .read, 16⟩⟩) := by
      simp [each, aioMove, startAio, AioPhase.submits, AioThread.submit, hlt]
    have hfinish : ∃ f', each (aioMove cfg) (Function.update (fun _ : Fin 1 => startAio) 0
        ⟨1, [⟨0, .read, 16⟩], [], 1, .submitted ⟨0, .read, 16⟩⟩) (0, .finish true) = some f' := by
      simp [each, aioMove, AioOper.syncs]
    obtain ⟨f', hfinish⟩ := hfinish
    have hrun := Run.snoc (Run.snoc Trace.nil hsubmit) hfinish
    have hbad := hall 1 _ _ hrun _ (List.mem_append_right _ (List.mem_singleton_self _))
    exact hbad hvalidate ⟨0, .read, 16⟩ rfl rfl List.mem_cons_self
  · intro hone threads hist f h
    refine (h.induction
      (fun hist f => (∀ t, OneAtATime (f t)) ∧ ∀ e ∈ hist, Undisturbed cfg (own e))
      ⟨fun _ => oneAtATime_startAio, by simp⟩ ?_).2
    intro hist f i f' ⟨hO, hall⟩ hf
    obtain ⟨s', hs, rfl⟩ := each_eq_some hf
    obtain ⟨hO', hstep⟩ := oneAtATime_step hone (hO i.1) (aioStep_of_aioMove hs)
    exact ⟨(forall_update_of_forall hO).mpr hO',
      List.forall_mem_append.mpr ⟨hall, List.forall_mem_singleton.mpr hstep⟩⟩

/-- Validation, with a backlog of `n + 1`. -/
def withBacklog (n : ℕ) : AioConfig := ⟨n + 1, true, false, Nat.succ_pos n⟩

/-- A write and a read, each completed before the next step. -/
def writeThenRead : List (Fin 1 × AioMove) :=
  [(0, .fill 16), (0, .submit .write 16), (0, .complete 0 16), (0, .getevents 1), (0, .finish true),
    (0, .submit .read 16), (0, .complete 0 16), (0, .getevents 1), (0, .finish true)]

theorem undisturbed_writeThenRead :
    ∃ hist f, Run (each (aioMove (withBacklog 0))) (fun _ => startAio) hist f ∧
      hist.map Prod.snd = writeThenRead ∧ ∀ e ∈ hist, Undisturbed (withBacklog 0) (own e) := by
  have h : Run.play (each (aioMove (withBacklog 0))) (fun _ => startAio) writeThenRead
      = some (_, _) := rfl
  have hrun := Run.of_play h
  exact ⟨_, _, hrun, rfl, (undisturbed_iff (withBacklog 0) rfl).mpr rfl 1 _ _ hrun⟩

/-- **With a backlog of two** a read is validated while the kernel still has it, and the buffer of a
write is filled again. -/
theorem disturbed_backlogTwo :
    (∃ hist f f', Run (each (aioMove (withBacklog 1))) (fun _ => startAio) hist f ∧
      hist.map Prod.snd = [((0 : Fin 1), .submit .read 16)] ∧
      each (aioMove (withBacklog 1)) f (0, .finish true) = some f' ∧
      (f 0).phase = .submitted ⟨0, .read, 16⟩ ∧ (f 0).pending = [⟨0, .read, 16⟩] ∧
      ¬ Undisturbed (withBacklog 1) (f 0, .finish true)) ∧
    ∃ hist f f', Run (each (aioMove (withBacklog 1))) (fun _ => startAio) hist f ∧
      hist.map Prod.snd = [((0 : Fin 1), .fill 16), (0, .submit .write 16), (0, .finish true)] ∧
      each (aioMove (withBacklog 1)) f (0, .fill 16) = some f' ∧
      (f 0).pending = [⟨0, .write, 16⟩] ∧ ¬ Undisturbed (withBacklog 1) (f 0, .fill 16) := by
  have hread : Run.play (each (aioMove (withBacklog 1))) (fun _ => startAio)
      [((0 : Fin 1), .submit .read 16)] = some (_, _) := rfl
  have hwrite : Run.play (each (aioMove (withBacklog 1))) (fun _ => startAio)
      [((0 : Fin 1), .fill 16), (0, .submit .write 16), (0, .finish true)] = some (_, _) := rfl
  refine ⟨⟨_, _, _, Run.of_play hread, rfl, rfl, rfl, rfl, fun h => ?_⟩,
    ⟨_, _, _, Run.of_play hwrite, rfl, rfl, rfl, fun h => ?_⟩⟩
  · exact h rfl ⟨0, .read, 16⟩ rfl rfl List.mem_cons_self
  · exact h ⟨0, .write, 16⟩ List.mem_cons_self rfl

end Sysbench.Fileio
