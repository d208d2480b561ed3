import Sysbench.Database.BulkRep

/-!
# Database/BulkBounds — where the bulk functions write

Any calls in any order, from a fresh connection on.  `db_bulk_insert_next` checks the room behind
the pending rows **before** it flushes them; after the flush the row goes behind the bare prefix,
where nobody has asked whether it fits.  So the buffer is overrun exactly when a row too long for
the bare prefix meets pending rows whose flush succeeds (`bulkSafe_iff`).
-/

namespace Sysbench.Database

/-- A call on a connection, with what `malloc` or the server answers. -/
inductive BulkOp
  | init (q : CStr) (mem : Option (Block bulkPacketSize))
  | next (row : CStr) (rp : Replies)
  | done (rp : Replies)

/-- The value a call returns, if its type has one, and the connection after it. -/
def bulkCall : BulkOp → DbConn CStr → Except Fault (Option ℤ × DbConn CStr)
  | .init q mem, c => do
    let r ← dbBulkInsertInit q mem c
    .ok (some r.1, r.2)
  | .next row rp, c => do
    let r ← dbBulkInsertNext id row rp c
    .ok (some r.1, r.2.1)
  | .done rp, c => do
    let r ← dbBulkInsertDone rp c
    .ok (none, r.1)

/-- The calls made, each with the connection it found.  A fault ends the process. -/
def bulkHistory : List BulkOp → DbConn CStr → List (DbConn CStr × BulkOp)
  | [], _ => []
  | op :: ops, c =>
    (c, op) ::
      match bulkCall op c with
      | .ok r => bulkHistory ops r.2
      | .error _ => []

/-- The row is too long even for a buffer that holds only the prefix. -/
def TooLong (row : CStr) (c : DbConn CStr) : Prop := c.bulkBuflen < c.bulkPtrOrig + row.length + 1

/-- **What is asked of a call**: it writes inside the buffer, and refuses a row that is too long. -/
structure CallSafe (c : DbConn CStr) (op : BulkOp) : Prop where
  inBounds : bulkCall op c ≠ .error .overrun
  refused : ∀ row rp, op = .next row rp → TooLong row c →
    ∃ ret c', bulkCall op c = .ok (some ret, c') ∧ ret ≠ 0

/-- **When a call does so**: a row that is too long comes with nothing pending, or with the buffer
in place and a flush that fails. -/
def CallMeets (c : DbConn CStr) (op : BulkOp) : Prop :=
  ∀ row rp, op = .next row rp → TooLong row c →
    c.bulkCnt = 0 ∨ c.bulkBuffer.isSome ∧ ¬ Flushes false rp c

/-! ## The state between calls -/

/-- The counters of a connection, with a buffer or without. -/
structure BulkCounters (c : DbConn CStr) : Prop where
  orig_le : c.bulkPtrOrig ≤ c.bulkPtr
  ptr_le : c.bulkPtr ≤ bulkPacketSize
  buflen_le : c.bulkBuflen ≤ bulkPacketSize
  ptr_eq : c.bulkCnt = 0 → c.bulkPtr = c.bulkPtrOrig
  driver : c.bulkCnt ≠ 0 → c.driver.isSome

/-- **The invariant of every connection**: sane counters, and a buffer that holds what they say. -/
structure BulkInv (c : DbConn CStr) : Prop extends BulkCounters c where
  rep : c.bulkBuffer.isSome → ∃ q, BulkRep q id c

variable {c c' : DbConn CStr} {q row : CStr} {rp : Replies}

theorem BulkRep.counters (h : BulkRep q id c) : BulkCounters c where
  orig_le := by
    rw [h.ptrOrig, h.ptr]
    exact List.IsPrefix.length_le (List.prefix_append _ _)
  ptr_le := by
    have := h.fits
    rw [h.ptr]
    omega
  buflen_le := h.buflen.le
  ptr_eq hc := by rw [h.ptr, h.ptrOrig, h.cnt_eq_zero.mp hc, bulkText_nil]; rfl
  driver _ := h.driver

theorem BulkRep.inv (h : BulkRep q id c) : BulkInv c := ⟨h.counters, fun _ => ⟨q, h⟩⟩

theorem BulkCounters.inv_closed (h : BulkCounters c) (hc : c.bulkBuffer = none) : BulkInv c :=
  ⟨h, fun hs => by simp [hc] at hs⟩

theorem bulkInv_fresh (driver : Option DbDriver) : BulkInv { driver := driver } :=
  BulkCounters.inv_closed ⟨le_rfl, Nat.zero_le _, Nat.zero_le _, fun _ => rfl,
    fun h => (h rfl).elim⟩
    rfl

theorem BulkRep.of_dbBulkInsertNext {ret : ℤ} {sent : List (Sent CStr)} (h : BulkRep q id c)
    (hn : dbBulkInsertNext id row rp c = .ok (ret, c', sent)) : BulkRep q id c' := by
  obtain ⟨-, -, rfl, -⟩ | ⟨-, -, hd⟩ | ⟨-, -, -, hrep, -⟩ | ⟨-, -, hrep, -⟩ :=
    dbBulkInsertNext_cases h hn
  · exact h
  · exact h.of_dbBulkDoInsert hd
  · exact hrep
  · exact hrep

/-- A flush without a buffer either finds nothing to do or dereferences NULL. -/
theorem dbBulkDoInsert_closed (h : BulkInv c) (hc : c.bulkBuffer = none) (isLast : Bool) :
    dbBulkDoInsert isLast rp c
      = if c.bulkCnt = 0 then .ok (0, c, []) else .error .nullPointer := by
  unfold dbBulkDoInsert
  by_cases hcnt : c.bulkCnt = 0
  · rw [if_pos hcnt, if_pos hcnt]
  · have hd : ¬ c.driver.isNone := by simpa [← Option.isSome_iff_ne_none] using h.driver hcnt
    rw [if_neg hcnt, if_neg hcnt, if_neg hd]
    simp [bulkQuery, hc, bind, Except.bind]

/-- The space check sees a row that is too long. -/
theorem bulkFull_of_tooLong (h : BulkCounters c) (hlen : row.length < 2 ^ 31)
    (hrow : TooLong row c) : bulkFull row c := by
  have h₁ := h.orig_le
  have h₂ := h.ptr_le
  have hcomma : c.comma ≤ 1 := by unfold DbConn.comma; split <;> omega
  have hsize : bulkPacketSize = 524288 := rfl
  unfold TooLong at hrow
  rw [bulkFull, toU32_of_lt (show row.length < 2 ^ 32 by omega)]
  have hsum : toU32 ((c.bulkPtr : ℤ) + row.length + 1 + c.comma)
      = c.bulkPtr + row.length + 1 + c.comma := by
    exact_mod_cast toU32_of_lt (n := c.bulkPtr + row.length + 1 + c.comma) (by omega)
  omega

theorem BulkRep.tooLong_iff (h : BulkRep q id c) : TooLong row c ↔ ¬ RowFits q id [] row := by
  rw [rowFits_nil, TooLong, h.buflen, h.ptrOrig]
  exact not_le.symm

/-! ## One call -/

/-- A first row that finds no room is refused. -/
theorem dbBulkInsertNext_refused (hfull : bulkFull row c) (hcnt : c.bulkCnt = 0) :
    dbBulkInsertNext id row rp c = .ok (1, c, []) := by
  rw [dbBulkInsertNext, id, if_pos hfull, if_pos hcnt]

/-- A row that finds no room behind pending rows is refused if their flush fails, and else goes
behind the bare prefix. -/
theorem dbBulkInsertNext_full (h : BulkRep q id c) (hr : c.bulkRows ≠ []) (hfull : bulkFull row c)
    (rp : Replies) :
    (¬ Flushes false rp c ∧ ∃ c' sent, dbBulkInsertNext id row rp c = .ok (1, c', sent)) ∨
    (Flushes false rp c ∧ ∃ k sent, dbBulkInsertNext id row rp c = do
      let c' ← bulkAppend id row (bulkReset { c with bulkCommitCnt := k })
      .ok (0, c', sent)) := by
  rw [dbBulkInsertNext, id, if_pos hfull, if_neg (mt h.cnt_eq_zero.mp hr)]
  obtain ⟨hno, hdo⟩ | ⟨j, k, -, hdue, hcommit, hdo⟩ | ⟨j, k, -, hfl, hdo⟩ :=
    dbBulkDoInsert_cases h hr false rp
  · exact .inl ⟨fun hfl => hno hfl.1, c, _, by rw [hdo]; rfl⟩
  · refine .inl ⟨fun hfl => ?_, _, _, by rw [hdo]; rfl⟩
    simpa [hcommit] using hfl.2 hdue
  · exact .inr ⟨hfl, k, _, by rw [hdo]; rfl⟩

/-- **The overrun**: a row too long for the bare prefix, pending rows, and a flush that succeeds. -/
theorem dbBulkInsertNext_overrun (h : BulkRep q id c) (hlen : row.length < 2 ^ 31)
    (hr : c.bulkRows ≠ []) (hrow : TooLong row c) (hfl : Flushes false rp c) :
    dbBulkInsertNext id row rp c = .error .overrun := by
  obtain ⟨hno, -⟩ | ⟨-, k, sent, hnext⟩ :=
    dbBulkInsertNext_full h hr (bulkFull_of_tooLong h.counters hlen hrow) rp
  · exact absurd hfl hno
  · rw [hnext, (h.reset k).bulkAppend_overrun (h.tooLong_iff.mp hrow)]
    rfl

/-- A row that does fit behind the bare prefix never leaves the buffer. -/
theorem dbBulkInsertNext_inBounds (h : BulkRep q id c) (hlen : row.length < 2 ^ 31)
    (hrow : ¬ TooLong row c) (rp : Replies) : ∃ r, dbBulkInsertNext id row rp c = .ok r := by
  have hbare : RowFits q id [] row := not_not.mp (mt h.tooLong_iff.mpr hrow)
  by_cases hfull : bulkFull row c
  · by_cases hr : c.bulkRows = []
    · exact ⟨_, dbBulkInsertNext_refused hfull (h.cnt_eq_zero.mpr hr)⟩
    · obtain ⟨-, c', sent, hnext⟩ | ⟨-, k, sent, hnext⟩ := dbBulkInsertNext_full h hr hfull rp
      · exact ⟨_, hnext⟩
      · obtain ⟨c', ha, -⟩ := (h.reset k).bulkAppend_ok hbare
        exact ⟨(0, c', sent), by rw [hnext, ha]; rfl⟩
  · have hroom := not_not.mp (mt (h.bulkFull_iff hlen).mpr hfull)
    obtain ⟨c', hnext, -⟩ := dbBulkInsertNext_room h hlen hroom rp
    exact ⟨_, hnext⟩

/-- Without a buffer a row is refused or NULL is dereferenced. -/
theorem dbBulkInsertNext_closed (h : BulkInv c) (hc : c.bulkBuffer = none) :
    dbBulkInsertNext id row rp c
      = if bulkFull row c ∧ c.bulkCnt = 0 then .ok (1, c, []) else .error .nullPointer := by
  have happ : bulkAppend id row c = .error .nullPointer := by simp [bulkAppend, hc]
  by_cases hfull : bulkFull row c
  · by_cases hcnt : c.bulkCnt = 0
    · rw [if_pos ⟨hfull, hcnt⟩, dbBulkInsertNext_refused hfull hcnt]
    · rw [if_neg fun hh => hcnt hh.2, dbBulkInsertNext, id, if_pos hfull, if_neg hcnt,
        dbBulkDoInsert_closed h hc, if_neg hcnt]
      rfl
  · rw [if_neg fun hh => hfull hh.1, dbBulkInsertNext, id, if_neg hfull, happ]
    rfl

/-- What `CallSafe` asks of a row. -/
theorem callSafe_next :
    CallSafe c (.next row rp) ↔ dbBulkInsertNext id row rp c ≠ .error .overrun ∧
      (TooLong row c → ∃ ret c' sent, dbBulkInsertNext id row rp c = .ok (ret, c', sent) ∧
        ret ≠ 0) := by
  have hcall : bulkCall (.next row rp) c
      = (dbBulkInsertNext id row rp c).map fun r => (some r.1, r.2.1) := by
    rw [bulkCall]
    cases dbBulkInsertNext id row rp c <;> rfl
  constructor
  · rintro ⟨hin, href⟩
    refine ⟨fun h => hin (by rw [hcall, h]; rfl), fun hlong => ?_⟩
    obtain ⟨ret, c', hr, hne⟩ := href row rp rfl hlong
    rw [hcall] at hr
    cases hn : dbBulkInsertNext id row rp c with
    | error e => simp [hn, Except.map] at hr
    | ok r =>
      simp only [hn, Except.map, Except.ok.injEq, Prod.mk.injEq, Option.some.injEq] at hr
      exact ⟨r.1, r.2.1, r.2.2, rfl, hr.1 ▸ hne⟩
  · rintro ⟨hin, href⟩
    refine ⟨fun h => hin ?_, fun row' rp' hop hlong => ?_⟩
    · rw [hcall] at h
      cases hn : dbBulkInsertNext id row rp c with
      | error e => simpa [hn, Except.map] using h
      | ok r => simp [hn, Except.map] at h
    · cases hop
      obtain ⟨ret, c', sent, hn, hne⟩ := href hlong
      exact ⟨ret, c', by rw [hcall, hn]; rfl, hne⟩

/-- What `CallMeets` asks of a row. -/
theorem callMeets_next :
    CallMeets c (.next row rp) ↔
      (TooLong row c → c.bulkCnt = 0 ∨ c.bulkBuffer.isSome ∧ ¬ Flushes false rp c) :=
  ⟨fun h => h row rp rfl, fun h _ _ hop => by cases hop; exact h⟩

/-- **One row**, on any connection that calls can lead to. -/
theorem callSafe_next_iff (h : BulkInv c) (hlen : row.length < 2 ^ 31) :
    CallSafe c (.next row rp) ↔ CallMeets c (.next row rp) := by
  rw [callSafe_next, callMeets_next]
  by_cases hlong : TooLong row c
  · have hfull := bulkFull_of_tooLong h.toBulkCounters hlen hlong
    by_cases hcnt : c.bulkCnt = 0
    · simp [dbBulkInsertNext_refused hfull hcnt, hlong, hcnt]
    cases hbuf : c.bulkBuffer with
    | none => simp [dbBulkInsertNext_closed h hbuf, hcnt, hlong]
    | some m =>
      obtain ⟨q, hrep⟩ := h.rep (by simp [hbuf])
      have hr : c.bulkRows ≠ [] := mt hrep.cnt_eq_zero.mpr hcnt
      by_cases hfl : Flushes false rp c
      · simp [dbBulkInsertNext_overrun hrep hlen hr hlong hfl, hcnt, hlong, hfl]
      · obtain ⟨-, c', sent, hnext⟩ | ⟨hfl', -⟩ := dbBulkInsertNext_full hrep hr hfull rp
        · simp [hnext, hlong, hfl]
        · exact absurd hfl' hfl
  · simp only [hlong, false_implies, and_true, iff_true]
    cases hbuf : c.bulkBuffer with
    | none =>
      rw [dbBulkInsertNext_closed h hbuf]
      split_ifs <;> simp
    | some m =>
      obtain ⟨q, hrep⟩ := h.rep (by simp [hbuf])
      obtain ⟨r, hnext⟩ := dbBulkInsertNext_inBounds hrep hlen hlong rp
      simp [hnext]

/-- The prefix is checked before it is copied. -/
theorem dbBulkInsertInit_returns (q : CStr) (mem : Option (Block bulkPacketSize))
    (c : DbConn CStr) :
    ∃ r, dbBulkInsertInit q mem c = .ok r := by
  cases hcaps : c.driver.bind DbDriver.describe with
  | none => exact ⟨(1, c), by simp only [dbBulkInsertInit, hcaps]⟩
  | some caps =>
    by_cases hq : bulkPacketSize < q.length + 1
    · exact ⟨(1, c), by simp only [dbBulkInsertInit, hcaps, if_pos hq]⟩
    · cases mem with
      | none => exact ⟨_, by simp only [dbBulkInsertInit, hcaps, if_neg hq]; rfl⟩
      | some m =>
        obtain ⟨c', hinit⟩ := dbBulkInsertInit_ok hcaps m (not_lt.mp hq)
        exact ⟨_, hinit⟩

/-- Flushing writes nothing into the buffer. -/
theorem dbBulkDoInsert_inBounds (h : BulkInv c) (isLast : Bool) (rp : Replies) :
    dbBulkDoInsert isLast rp c ≠ .error .overrun := by
  cases hbuf : c.bulkBuffer with
  | none =>
    rw [dbBulkDoInsert_closed h hbuf]
    split_ifs <;> simp
  | some m =>
    obtain ⟨q, hrep⟩ := h.rep (by simp [hbuf])
    by_cases hr : c.bulkRows = []
    · simp [dbBulkDoInsert_empty hrep hr]
    · obtain ⟨-, hdo⟩ | ⟨j, k, -, -, -, hdo⟩ | ⟨j, k, -, -, hdo⟩ :=
        dbBulkDoInsert_cases hrep hr isLast rp <;> simp [hdo]

/-- **One call** is safe exactly when it meets the condition. -/
theorem callSafe_iff (h : BulkInv c) {op : BulkOp}
    (hlen : ∀ row rp, op = .next row rp → row.length < 2 ^ 31) :
    CallSafe c op ↔ CallMeets c op := by
  cases op with
  | init q mem =>
    obtain ⟨r, hr⟩ := dbBulkInsertInit_returns q mem c
    exact iff_of_true ⟨by simp [bulkCall, hr, bind, Except.bind], by simp⟩ (by simp [CallMeets])
  | next row rp => exact callSafe_next_iff h (hlen row rp rfl)
  | done rp =>
    refine iff_of_true ⟨?_, by simp⟩ (by simp [CallMeets])
    have hdo := dbBulkDoInsert_inBounds h true rp
    cases hd : dbBulkDoInsert true rp c <;> simp_all [bulkCall, dbBulkInsertDone, bind, Except.bind]

/-! ## Every sequence of calls -/

/-- Opening a bulk insert, or failing to. -/
theorem bulkInv_init {mem : Option (Block bulkPacketSize)} {ret : ℤ} (h : BulkInv c)
    (hi : dbBulkInsertInit q mem c = .ok (ret, c')) : BulkInv c' := by
  by_cases hret : ret = 0
  · have hrep : BulkRep q id c' ∧ c'.bulkRows = [] := bulkRep_of_init (hret ▸ hi)
    exact hrep.1.inv
  · unfold dbBulkInsertInit at hi
    split at hi
    · cases hi
      exact h
    split at hi
    · cases hi
      exact h
    split at hi
    · cases hi
      exact BulkCounters.inv_closed ⟨h.orig_le, h.ptr_le, le_rfl, h.ptr_eq, h.driver⟩ rfl
    · obtain ⟨m, -, hi⟩ := except_bind_eq_ok.mp hi
      exact absurd (Prod.mk.inj (Except.ok.inj hi)).1.symm hret

theorem bulkInv_next {ret : ℤ} {sent : List (Sent CStr)} (h : BulkInv c)
    (hn : dbBulkInsertNext id row rp c = .ok (ret, c', sent)) : BulkInv c' := by
  cases hbuf : c.bulkBuffer with
  | none =>
    rw [dbBulkInsertNext_closed h hbuf] at hn
    split_ifs at hn
    cases hn
    exact h
  | some m =>
    obtain ⟨q, hrep⟩ := h.rep (by simp [hbuf])
    exact (hrep.of_dbBulkInsertNext hn).inv

theorem bulkInv_done {sent : List (Sent CStr)} (h : BulkInv c)
    (hd : dbBulkInsertDone rp c = .ok (c', sent)) : BulkInv c' := by
  obtain ⟨⟨ret, d, sent'⟩, hdo, hd⟩ := except_bind_eq_ok.mp hd
  cases hd
  have hcounters : BulkCounters d := by
    cases hbuf : c.bulkBuffer with
    | none =>
      rw [dbBulkDoInsert_closed h hbuf] at hdo
      split_ifs at hdo
      cases hdo
      exact h.toBulkCounters
    | some m =>
      obtain ⟨q, hrep⟩ := h.rep (by simp [hbuf])
      exact (hrep.of_dbBulkDoInsert hdo).counters
  refine BulkCounters.inv_closed ?_ rfl
  exact ⟨hcounters.orig_le, hcounters.ptr_le, hcounters.buflen_le, hcounters.ptr_eq,
    hcounters.driver⟩

/-- **Every call keeps the invariant.** -/
theorem bulkInv_bulkCall (h : BulkInv c) {op : BulkOp} {ret : Option ℤ}
    (hcall : bulkCall op c = .ok (ret, c')) : BulkInv c' := by
  cases op with
  | init q mem =>
    obtain ⟨⟨r, d⟩, hi, hcall⟩ := except_bind_eq_ok.mp hcall
    cases hcall
    exact bulkInv_init h hi
  | next row rp =>
    obtain ⟨⟨r, d, sent⟩, hn, hcall⟩ := except_bind_eq_ok.mp hcall
    cases hcall
    exact bulkInv_next h hn
  | done rp =>
    obtain ⟨⟨d, sent⟩, hd, hcall⟩ := except_bind_eq_ok.mp hcall
    cases hcall
    exact bulkInv_done h hd

/-- Every call of a history finds a connection in the invariant. -/
theorem bulkInv_bulkHistory {ops : List BulkOp} :
    ∀ {c : DbConn CStr}, BulkInv c → ∀ e ∈ bulkHistory ops c, BulkInv e.1 ∧ e.2 ∈ ops := by
  induction ops with
  | nil => simp [bulkHistory]
  | cons op ops ih =>
    intro c h e he
    rcases List.mem_cons.mp he with rfl | he
    · exact ⟨h, List.mem_cons_self⟩
    · cases hcall : bulkCall op c with
      | error err => simp [hcall] at he
      | ok r =>
        rw [hcall] at he
        obtain ⟨hinv, hmem⟩ := ih (bulkInv_bulkCall h hcall) e he
        exact ⟨hinv, List.mem_cons_of_mem op hmem⟩

/-- A bulk insert of two rows, with a server that refuses nothing. -/
def twoRows (q row row' : CStr) : List BulkOp :=
  [.init q (some (Block.zero bulkPacketSize)), .next row .allOk,
    .next row' .allOk]

/-- The second call of such a history leaves the first row pending; the third then leaves the
buffer, if the second row is too long. -/
theorem twoRows_overrun (q row row' : CStr) {c : DbConn CStr} {caps : DrvCaps}
    (hcaps : c.driver.bind DbDriver.describe = some caps)
    (hrow : q.length + row.length + 1 ≤ bulkPacketSize)
    (hrow' : bulkPacketSize < q.length + row'.length + 1) (hlen : row'.length < 2 ^ 31) :
    ∃ e ∈ bulkHistory (twoRows q row row') c, bulkCall e.2 e.1 = .error .overrun := by
  have hsize : bulkPacketSize = 524288 := rfl
  obtain ⟨c₀, hinit⟩ := dbBulkInsertInit_ok (q := q) hcaps
    (Block.zero bulkPacketSize) (by omega)
  obtain ⟨hrep₀, hempty⟩ : BulkRep q id c₀ ∧ c₀.bulkRows = [] := bulkRep_of_init hinit
  have hfits : RowFits q id c₀.bulkRows row := by
    rw [hempty]
    exact rowFits_nil.mpr hrow
  obtain ⟨c₁, hnext, hrep₁, hrows⟩ :=
    dbBulkInsertNext_room hrep₀ (show row.length < 2 ^ 31 by omega) hfits .allOk
  have hlong : TooLong row' c₁ := by
    rw [hrep₁.tooLong_iff, rowFits_nil]
    exact not_le.mpr hrow'
  have hover : dbBulkInsertNext id row' .allOk c₁ = .error .overrun :=
    dbBulkInsertNext_overrun hrep₁ hlen (by simp [hrows]) hlong
      ⟨⟨0, by omega, rfl⟩, fun _ => rfl⟩
  refine ⟨(c₁, .next row' .allOk), ?_, by simp [bulkCall, hover, bind, Except.bind]⟩
  simp [twoRows, bulkHistory, bulkCall, hinit, hnext, bind, Except.bind]

/-- **Where the bulk functions write.**  Over any calls on a connection, with rows shorter than
`2 ^ 31` and any answers of the server, every call stays inside the buffer and refuses the rows
that are too long if and only if no such row meets pending rows, unless their flush fails. -/
theorem bulkSafe_iff (driver : Option DbDriver) (ops : List BulkOp)
    (hlen : ∀ row rp, .next row rp ∈ ops → row.length < 2 ^ 31) :
    (∀ e ∈ bulkHistory ops { driver := driver }, CallSafe e.1 e.2) ↔
      ∀ e ∈ bulkHistory ops { driver := driver }, CallMeets e.1 e.2 := by
  refine forall₂_congr fun e he => ?_
  obtain ⟨hinv, hmem⟩ := bulkInv_bulkHistory (bulkInv_fresh driver) e he
  exact callSafe_iff hinv fun row rp hop => hlen row rp (hop ▸ hmem)

theorem bulkSafe_longRow :
    (∀ e ∈ bulkHistory (twoRows (.replicate 20) (.replicate 10) (.replicate bulkPacketSize))
      { driver := some ⟨some ⟨true, true⟩⟩ }, CallSafe e.1 e.2) ↔
      ∀ e ∈ bulkHistory (twoRows (.replicate 20) (.replicate 10) (.replicate bulkPacketSize))
        { driver := some ⟨some ⟨true, true⟩⟩ }, CallMeets e.1 e.2 := by
  refine bulkSafe_iff _ _ fun row rp hmem => ?_
  simp only [twoRows, List.mem_cons, reduceCtorEq, BulkOp.next.injEq, List.not_mem_nil,
    or_false, false_or] at hmem
  rcases hmem with ⟨rfl, -⟩ | ⟨rfl, -⟩ <;> simp [bulkPacketSize]

/-- **The flush lets the long row through**: after a row of ten bytes, one as long as the whole
buffer is copied past its end. -/
theorem longRow_overruns :
    ¬ ∀ e ∈ bulkHistory (twoRows (.replicate 20) (.replicate 10) (.replicate bulkPacketSize))
      { driver := some ⟨some ⟨true, true⟩⟩ }, CallSafe e.1 e.2 := by
  intro h
  obtain ⟨e, he, hover⟩ := twoRows_overrun (.replicate 20) (.replicate 10)
    (.replicate bulkPacketSize)
    (c := ({ driver := some ⟨some ⟨true, true⟩⟩ } : DbConn CStr)) rfl
    (by simp [bulkPacketSize]) (by simp) (by simp [bulkPacketSize])
  exact (h e he).inBounds hover

end Sysbench.Database
