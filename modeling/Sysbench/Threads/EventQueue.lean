import Sysbench.Machinery.CircularList
import Sysbench.Machinery.Traces

/-!
# Threads/EventQueue — the event queue of `--tx-rate` mode

One event generator (`eventgen_thread_proc`) and any number of workers (`worker_thread`) share a
ring of slots and an intrusive list through them.  A move is a section under `event_queue_mutex`,
or what a thread does between two sections; any thread may move next.  The generator writes the
time of an event into its slot before it takes the mutex, so the safety of that store rests on the
slot not being linked.

Number the events: `p` of them were linked so far and `c` taken out.  The list is events `c` to
`p - 1`, event `k` in slot `k` modulo the ring, and everything else follows from that
(`QueueInv`).
-/

namespace Sysbench.Threads

/-- `MAX_QUEUE_LEN`. -/
def maxQueueLen : ℕ := 100000

/-- The nodes of the list: `event_queue` itself, and the `listitem` of a slot of `queue_array`. -/
inductive QueueNode
  | head
  | item (i : ℕ)
  deriving DecidableEq, Repr

/-- Where the event generator is in its loop. -/
inductive GenPc
  | sleeping
  | stamped
  | linked
  | stopped
  deriving DecidableEq, Repr

/-- Where a worker is in its loop. -/
inductive WorkerPc
  | ready
  | waiting
  | executing
  | releasing
  | left
  deriving DecidableEq, Repr

/-- The shared variables, the generator's index and every thread's position. -/
structure QueueState (ω : Type) where
  links : Links QueueNode
  eventTime : ℕ → ℕ
  eventQueueLength : ℤ
  queueIsFull : Bool
  concurrency : ℤ
  genPc : GenPc
  i : ℕ
  workerPc : ω → WorkerPc
  queueStartTime : ω → ℕ

/-- What a thread may do next.  The time of an event, the outcome of a request and whether a worker
goes on after it are inputs. -/
inductive Move (ω : Type)
  | stamp (t : ℕ)
  | link
  | testFull
  | enter (w : ω)
  | dequeue (w : ω)
  | execute (w : ω) (err : Bool)
  | release (w : ω) (again : Bool)

/-- What is recorded of a move: an event's time written, an event's time obtained. -/
inductive Obs (ω : Type)
  | stamp (t : ℕ)
  | take (w : ω) (t : ℕ)
  | quiet
  deriving DecidableEq

variable {ω : Type}

/-- All threads have passed the start barrier; the generator has initialised the list before it. -/
def startQueue (links : Links QueueNode) (eventTime : ℕ → ℕ) : QueueState ω where
  links := links.listInit .head
  eventTime := eventTime
  eventQueueLength := 0
  queueIsFull := false
  concurrency := 0
  genPc := .sleeping
  i := 0
  workerPc := fun _ => .ready
  queueStartTime := fun _ => 0

/-- `queue_array[i].event_time = …`, outside the mutex. -/
def stampEvent (t : ℕ) (s : QueueState ω) : QueueState ω :=
  { s with eventTime := Function.update s.eventTime s.i t, genPc := .stamped }

/-- The section of the generator. -/
def linkEvent (s : QueueState ω) : QueueState ω :=
  { s with
    links := s.links.listAddTail (.item s.i) .head
    eventQueueLength := s.eventQueueLength + 1
    queueIsFull := if (maxQueueLen : ℤ) ≤ s.eventQueueLength + 1 then true else s.queueIsFull
    genPc := .linked }

/-- The end of the generator's loop: it stops, or goes on to the next slot. -/
def nextSlot (s : QueueState ω) : QueueState ω :=
  if s.queueIsFull then { s with genPc := .stopped }
  else { s with i := if maxQueueLen ≤ s.i + 1 then 0 else s.i + 1, genPc := .sleeping }

variable [DecidableEq ω]

/-- Worker `w` goes on to `pc`. -/
def setWorker (w : ω) (pc : WorkerPc) (s : QueueState ω) : QueueState ω :=
  { s with workerPc := Function.update s.workerPc w pc }

/-- The section of a worker that takes an event: `SB_LIST_ONCE` may find the list empty. -/
def takeEvent (w : ω) (s : QueueState ω) : Obs ω × QueueState ω :=
  match s.links.next .head with
  | .head => (.quiet, setWorker w .executing { s with concurrency := s.concurrency + 1 })
  | .item i =>
    (.take w (s.eventTime i), setWorker w .executing { s with
      queueStartTime := Function.update s.queueStartTime w (s.eventTime i)
      links := s.links.listDelete (.item i)
      eventQueueLength := s.eventQueueLength - 1
      concurrency := s.concurrency + 1 })

/-- One move.  A worker waits on the condition variable until the queue is not empty; an error
leaves its loop before `concurrency` is decremented. -/
def step (s : QueueState ω) : Move ω → Option (Obs ω × QueueState ω)
  | .stamp t => if s.genPc = .sleeping then some (.stamp t, stampEvent t s) else none
  | .link => if s.genPc = .stamped then some (.quiet, linkEvent s) else none
  | .testFull => if s.genPc = .linked then some (.quiet, nextSlot s) else none
  | .enter w =>
    if s.workerPc w = .ready then
      some (.quiet, setWorker w (if s.queueIsFull then .left else .waiting) s)
    else none
  | .dequeue w =>
    if s.workerPc w = .waiting ∧ s.eventQueueLength ≠ 0 then some (takeEvent w s) else none
  | .execute w err =>
    if s.workerPc w = .executing then
      some (.quiet, setWorker w (if err then .left else .releasing) s)
    else none
  | .release w again =>
    if s.workerPc w = .releasing then
      some (.quiet, setWorker w (if again then .ready else .left)
        { s with concurrency := s.concurrency - 1 })
    else none

omit [DecidableEq ω]

/-! ## The events of a run -/

/-- The times of the events generated, in order. -/
def generated (outs : List (Obs ω)) : List ℕ :=
  outs.filterMap fun
    | .stamp t => some t
    | _ => none

/-- The times obtained by the workers, in order. -/
def taken (outs : List (Obs ω)) : List ℕ :=
  outs.filterMap fun
    | .take _ t => some t
    | _ => none

@[simp] theorem generated_append (l l' : List (Obs ω)) :
    generated (l ++ l') = generated l ++ generated l' := List.filterMap_append

@[simp] theorem taken_append (l l' : List (Obs ω)) : taken (l ++ l') = taken l ++ taken l' :=
  List.filterMap_append

@[simp] theorem generated_stamp (t : ℕ) : generated [(.stamp t : Obs ω)] = [t] := rfl

@[simp] theorem generated_take (w : ω) (t : ℕ) : generated [.take w t] = [] := rfl

@[simp] theorem generated_quiet : generated [(.quiet : Obs ω)] = [] := rfl

@[simp] theorem taken_stamp (t : ℕ) : taken [(.stamp t : Obs ω)] = [] := rfl

@[simp] theorem taken_take (w : ω) (t : ℕ) : taken [.take w t] = [t] := rfl

@[simp] theorem taken_quiet : taken [(.quiet : Obs ω)] = [] := rfl

/-- The slots of events `c` to `p - 1`. -/
def slots (c p : ℕ) : List ℕ := (List.range' c (p - c)).map (· % maxQueueLen)

/-- The event that is stamped but not yet linked. -/
def stampedEvent (s : QueueState ω) : List ℕ :=
  if s.genPc = .stamped then [s.eventTime s.i] else []

theorem maxQueueLen_pos : 0 < maxQueueLen := by decide

@[simp] theorem length_slots (c p : ℕ) : (slots c p).length = p - c := by simp [slots]

@[simp] theorem slots_self (c : ℕ) : slots c c = [] := by simp [slots]

theorem slots_succ {c p : ℕ} (h : c ≤ p) : slots c (p + 1) = slots c p ++ [p % maxQueueLen] := by
  rw [slots, Nat.succ_sub h, List.range'_1_concat, List.map_append, Nat.add_sub_cancel' h]
  rfl

theorem slots_cons {c p : ℕ} (h : c < p) :
    slots c p = c % maxQueueLen :: slots (c + 1) p := by
  obtain ⟨d, rfl⟩ := Nat.exists_eq_add_of_lt h
  rw [slots, show c + d + 1 - c = d + 1 by omega, List.range'_succ, slots,
    show c + d + 1 - (c + 1) = d by omega]
  rfl

/-- **A ring that is not full has its next slot free.** -/
theorem notMem_slots {c p : ℕ} (h : p - c < maxQueueLen) : p % maxQueueLen ∉ slots c p := by
  intro hmem
  obtain ⟨k, hk, hmod⟩ := List.mem_map.mp hmem
  rw [List.mem_range'_1] at hk
  have hdvd : maxQueueLen ∣ p - k := (Nat.modEq_iff_dvd' (by omega)).mp hmod
  have := Nat.le_of_dvd (by omega) hdvd
  omega

/-- The slots just behind index `i`, in ring order. -/
def slotsBehind (i len : ℕ) : List ℕ :=
  (List.range len).map fun j => (i + maxQueueLen - len + j) % maxQueueLen

theorem slots_eq_slotsBehind {c p i : ℕ} (hcp : c ≤ p) (hle : p - c ≤ maxQueueLen)
    (hi : i % maxQueueLen = p % maxQueueLen) : slots c p = slotsBehind i (p - c) := by
  rw [slots, slotsBehind, List.range'_eq_map_range, List.map_map]
  refine List.map_congr_left fun j _ => ?_
  -- both sides are `p - len + j` modulo the ring
  have hsum : c + j + maxQueueLen + (p - c) = p + maxQueueLen + j := by omega
  have hsum' : i + maxQueueLen - (p - c) + j + (p - c) = i + maxQueueLen + j := by omega
  have hmod : c + j + maxQueueLen ≡ i + maxQueueLen - (p - c) + j [MOD maxQueueLen] := by
    refine Nat.ModEq.add_right_cancel' (p - c) ?_
    rw [hsum, hsum']
    exact (Nat.ModEq.add_right _ hi.symm).add_right _
  exact (Nat.add_mod_right _ _).symm.trans hmod

/-! ## The invariant -/

/-- The generator's index is the slot of the event it is about to link, or of the one it has just
linked. -/
def genEvent (s : QueueState ω) (p : ℕ) : ℕ :=
  match s.genPc with
  | .sleeping | .stamped => p
  | .linked | .stopped => p - 1

/-- **The invariant of the queue**: `p` events were linked and `c` taken. -/
structure QueueInv (c p : ℕ) (outs : List (Obs ω)) (s : QueueState ω) : Prop where
  le : c ≤ p
  ring : s.links.IsRing .head ((slots c p).map .item)
  length : s.eventQueueLength = (p - c : ℕ)
  bound : p - c ≤ maxQueueLen
  room : s.queueIsFull = false → p - c < maxQueueLen
  open_ : s.genPc = .sleeping ∨ s.genPc = .stamped → s.queueIsFull = false
  index : s.i = genEvent s p % maxQueueLen
  linked : s.genPc = .linked ∨ s.genPc = .stopped → 0 < p
  times : taken outs ++ (slots c p).map s.eventTime ++ stampedEvent s = generated outs

variable {c p : ℕ} {outs : List (Obs ω)} {s s' : QueueState ω}

namespace QueueInv

theorem start (links : Links QueueNode) (eventTime : ℕ → ℕ) :
    QueueInv 0 0 [] (startQueue links eventTime : QueueState ω) where
  le := le_rfl
  ring := Links.isRing_listInit links .head
  length := rfl
  bound := Nat.zero_le _
  room _ := maxQueueLen_pos
  open_ _ := rfl
  index := rfl
  linked h := by simp [startQueue] at h
  times := rfl

/-- The slot the generator is about to write or link is free. -/
theorem free (h : QueueInv c p outs s) (hpc : s.genPc = .sleeping ∨ s.genPc = .stamped) :
    s.i = p % maxQueueLen ∧ s.i ∉ slots c p := by
  have hi : s.i = p % maxQueueLen := by
    rw [h.index]
    rcases hpc with hpc | hpc <;> rw [genEvent, hpc]
  exact ⟨hi, hi ▸ notMem_slots (h.room (h.open_ hpc))⟩

/-- A move of a worker that only changes its own position. -/
theorem setWorker [DecidableEq ω] (h : QueueInv c p outs s) (w : ω) (pc : WorkerPc)
    (concurrency : ℤ) :
    QueueInv c p (outs ++ [Obs.quiet])
      (Threads.setWorker w pc { s with concurrency := concurrency }) where
  __ := h
  times := by
    rw [taken_append, taken_quiet, generated_append, generated_quiet, List.append_nil,
      List.append_nil]
    exact h.times

/-- The time of the next event is written into a free slot. -/
theorem stampEvent (h : QueueInv c p outs s) (hpc : s.genPc = .sleeping) (t : ℕ) :
    QueueInv c p (outs ++ [Obs.stamp t]) (Threads.stampEvent t s) where
  le := h.le
  ring := h.ring
  length := h.length
  bound := h.bound
  room := h.room
  open_ _ := h.open_ (.inl hpc)
  index := (h.free (.inl hpc)).1
  linked hl := by simp [Threads.stampEvent] at hl
  times := by
    obtain ⟨-, hfree⟩ := h.free (.inl hpc)
    have hsame : (slots c p).map (Function.update s.eventTime s.i t)
      = (slots c p).map s.eventTime :=
      List.map_congr_left fun k hk => Function.update_of_ne (ne_of_mem_of_not_mem hk hfree) _ _
    have htimes := h.times
    simp only [stampedEvent, hpc, reduceCtorEq, if_false, List.append_nil] at htimes
    simp [Threads.stampEvent, stampedEvent, hsame, ← htimes]

/-- The slot is put at the tail. -/
theorem linkEvent (h : QueueInv c p outs s) (hpc : s.genPc = .stamped) :
    QueueInv c (p + 1) (outs ++ [Obs.quiet]) (Threads.linkEvent s) := by
  obtain ⟨hi, hfree⟩ := h.free (.inr hpc)
  have hroom := h.room (h.open_ (.inr hpc))
  have hle := h.le
  have hlen := h.length
  refine ⟨by omega, ?_, ?_, by omega, fun hfull => ?_, fun hl => ?_, hi, fun _ => by omega, ?_⟩
  · rw [slots_succ hle, List.map_append, ← hi]
    exact h.ring.listAddTail (by simpa using hfree)
  · simp only [Threads.linkEvent, hlen]
    omega
  · -- the flag is set when the section leaves the ring full
    simp only [Threads.linkEvent] at hfull
    split_ifs at hfull with hmax
    omega
  · simp [Threads.linkEvent] at hl
  · have htimes := h.times
    simp only [stampedEvent, hpc, if_true] at htimes
    simp [Threads.linkEvent, stampedEvent, slots_succ hle, ← htimes, hi]

/-- The index goes round the ring. -/
theorem succ_mod_maxQueueLen (k : ℕ) :
    (if maxQueueLen ≤ k % maxQueueLen + 1 then 0 else k % maxQueueLen + 1)
      = (k + 1) % maxQueueLen := by
  have hlt := Nat.mod_lt k maxQueueLen_pos
  have hmod : (k + 1) % maxQueueLen = (k % maxQueueLen + 1) % maxQueueLen := by simp
  rw [hmod]
  split_ifs with hwrap
  · rw [show k % maxQueueLen + 1 = maxQueueLen by omega, Nat.mod_self]
  · exact (Nat.mod_eq_of_lt (by omega)).symm

/-- The generator goes on to the next slot, or stops. -/
theorem nextSlot (h : QueueInv c p outs s) (hpc : s.genPc = .linked) :
    QueueInv c p (outs ++ [Obs.quiet]) (Threads.nextSlot s) := by
  have htimes := h.times
  simp only [stampedEvent, hpc, reduceCtorEq, if_false, List.append_nil] at htimes
  have hpos := h.linked (.inl hpc)
  have hindex : s.i = (p - 1) % maxQueueLen := by
    rw [h.index, genEvent, hpc]
  unfold Threads.nextSlot
  by_cases hfull : s.queueIsFull
  · rw [if_pos hfull]
    exact ⟨h.le, h.ring, h.length, h.bound, h.room, fun hl => by simp at hl, hindex,
      fun _ => hpos, by simp [stampedEvent, ← htimes]⟩
  · rw [if_neg hfull]
    refine ⟨h.le, h.ring, h.length, h.bound, h.room, fun _ => by simpa using hfull, ?_,
      fun hl => by simp at hl, by simp [stampedEvent, ← htimes]⟩
    simp only [genEvent, hindex, succ_mod_maxQueueLen, Nat.sub_add_cancel hpos]

/-- A worker takes the oldest event. -/
theorem takeEvent [DecidableEq ω] (h : QueueInv c p outs s) (w : ω) (hne : s.eventQueueLength ≠ 0) :
    QueueInv (c + 1) p (outs ++ [(Threads.takeEvent w s).1]) (Threads.takeEvent w s).2 := by
  have hlen := h.length
  have hlt : c < p := by
    have := h.le
    omega
  have hbound := h.bound
  have hring := h.ring
  rw [slots_cons hlt, List.map_cons] at hring
  simp only [Threads.takeEvent, hring.next_head]
  refine ⟨hlt, hring.listDelete_first, ?_, by omega, fun hfull => ?_, h.open_,
    h.index, h.linked, ?_⟩
  · simp only [Threads.setWorker, hlen]
    omega
  · have := h.room hfull
    omega
  · have htimes := h.times
    rw [slots_cons hlt, List.map_cons] at htimes
    rw [taken_append, taken_take, generated_append, generated_take, List.append_nil, ← htimes]
    simp only [List.append_assoc, List.cons_append, List.nil_append]
    rfl

end QueueInv

/-- **Every move keeps the invariant**, for some numbers of events linked and taken. -/
theorem queueInv_step [DecidableEq ω] (h : QueueInv c p outs s) {m : Move ω} {o : Obs ω}
    (hs : step s m = some (o, s')) : ∃ c' p', QueueInv c' p' (outs ++ [o]) s' := by
  cases m <;>
    simp only [step, Option.ite_none_right_eq_some, Option.some.injEq, Prod.mk.injEq] at hs
  case stamp t =>
    obtain ⟨hpc, rfl, rfl⟩ := hs
    exact ⟨c, p, h.stampEvent hpc t⟩
  case link =>
    obtain ⟨hpc, rfl, rfl⟩ := hs
    exact ⟨c, p + 1, h.linkEvent hpc⟩
  case testFull =>
    obtain ⟨hpc, rfl, rfl⟩ := hs
    exact ⟨c, p, h.nextSlot hpc⟩
  case enter w =>
    obtain ⟨-, rfl, rfl⟩ := hs
    exact ⟨c, p, h.setWorker w _ s.concurrency⟩
  case dequeue w =>
    obtain ⟨hpc, hs⟩ := hs
    obtain ⟨rfl, rfl⟩ := Prod.ext_iff.mp hs
    exact ⟨c + 1, p, h.takeEvent w hpc.2⟩
  case execute w err =>
    obtain ⟨-, rfl, rfl⟩ := hs
    exact ⟨c, p, h.setWorker w _ s.concurrency⟩
  case release w again =>
    obtain ⟨-, rfl, rfl⟩ := hs
    exact ⟨c, p, h.setWorker w _ _⟩

/-! ## Every run -/

/-- The index behind which the linked slots lie: the next one the generator will link. -/
def producerIndex (s : QueueState ω) : ℕ :=
  match s.genPc with
  | .sleeping | .stamped => s.i
  | .linked | .stopped => s.i + 1

/-- The generator writes its slot, or links it. -/
def Move.UsesSlot : Move ω → Prop
  | .stamp _ | .link => True
  | _ => False

/-- **The queue is a FIFO**: `linked` are the slots in the list after the moves `outs`. -/
structure FifoQueue [DecidableEq ω] (outs : List (Obs ω)) (s : QueueState ω) (linked : List ℕ) :
    Prop where
  ring : s.links.IsRing .head (linked.map .item)
  length : s.eventQueueLength = linked.length
  behind : linked = slotsBehind (producerIndex s) linked.length
  inArray : s.i < maxQueueLen ∧ ∀ i ∈ linked, i < maxQueueLen
  free : ∀ m, m.UsesSlot → (step s m).isSome → s.i ∉ linked
  noneLost : taken outs ++ linked.map s.eventTime ++ stampedEvent s = generated outs
  order : ∀ (k t : ℕ), (taken outs)[k]? = some t → (generated outs)[k]? = some t

/-- The generator uses its slot only where it is free. -/
theorem genPc_of_usesSlot [DecidableEq ω] {m : Move ω} (hm : m.UsesSlot)
    (hs : (step s m).isSome) : s.genPc = .sleeping ∨ s.genPc = .stamped := by
  cases m with
  | stamp t =>
    refine .inl ?_
    by_contra hne
    simp [step, hne] at hs
  | link =>
    refine .inr ?_
    by_contra hne
    simp [step, hne] at hs
  | testFull | enter | dequeue | execute | release => exact hm.elim

theorem QueueInv.fifoQueue [DecidableEq ω] (h : QueueInv c p outs s) :
    FifoQueue outs s (slots c p) where
  ring := h.ring
  length := by rw [h.length, length_slots]
  behind := by
    rw [length_slots]
    refine slots_eq_slotsBehind h.le h.bound ?_
    have hindex := h.index
    have hpos := h.linked
    unfold producerIndex
    cases hpc : s.genPc with
    | sleeping | stamped =>
      rw [genEvent, hpc] at hindex
      rw [hindex, Nat.mod_mod]
    | linked | stopped =>
      rw [genEvent, hpc] at hindex
      have hp : p - 1 + 1 = p := Nat.sub_add_cancel (hpos (by simp [hpc]))
      rw [hindex, Nat.mod_add_mod, hp]
  inArray := by
    refine ⟨h.index ▸ Nat.mod_lt _ maxQueueLen_pos, fun i hi => ?_⟩
    obtain ⟨k, -, rfl⟩ := List.mem_map.mp hi
    exact Nat.mod_lt _ maxQueueLen_pos
  free _ hm hs := (h.free (genPc_of_usesSlot hm hs)).2
  noneLost := h.times
  order k t hk := by
    rw [← h.times, List.append_assoc]
    exact List.getElem?_append_left (List.getElem?_eq_some_iff.mp hk).1 ▸ hk

/-- **The event queue of `--tx-rate` mode.**  After any moves of the generator and the workers, in
any order, the list holds the slots just behind the generator's index, its length is
`event_queue_length`, the generator is about to use a slot that is not linked, and the workers have
obtained the times of the first events generated, in order; the others are still there. -/
theorem eventQueue_fifo [DecidableEq ω] (links : Links QueueNode) (eventTime : ℕ → ℕ)
    (h : Trace step (startQueue links eventTime : QueueState ω) outs s) :
    ∃ linked, FifoQueue outs s linked := by
  obtain ⟨c, p, hinv⟩ := h.invariant (fun outs s => ∃ c p, QueueInv c p outs s)
    ⟨0, 0, .start links eventTime⟩ fun _ _ _ _ _ ⟨_, _, hinv⟩ hs => queueInv_step hinv hs
  exact ⟨slots c p, hinv.fifoQueue⟩

/-- Two events and two workers; the worker that waits first gets the second event. -/
theorem eventQueue_fifo_twoEvents :
    ∃ s : QueueState Bool, ∃ linked,
      FifoQueue [.stamp 7, .quiet, .quiet, .quiet, .stamp 9, .quiet, .quiet, .take true 7,
        .take false 9] s linked := by
  have h₀ : Trace step (startQueue ⟨id, id⟩ fun _ => 0 : QueueState Bool) [] _ := .nil
  have h₂ := (h₀.snoc (i := .stamp 7) rfl).snoc (i := .link) rfl
  have h₄ := (h₂.snoc (i := .enter false) rfl).snoc (i := .testFull) rfl
  have h₇ := ((h₄.snoc (i := .stamp 9) rfl).snoc (i := .enter true) rfl).snoc (i := .link) rfl
  have h₉ := (h₇.snoc (i := .dequeue true) rfl).snoc (i := .dequeue false) rfl
  exact ⟨_, eventQueue_fifo _ _ h₉⟩

end Sysbench.Threads
