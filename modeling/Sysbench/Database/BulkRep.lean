import Sysbench.Database.BulkInsert

/-!
# Database/BulkRep — what the bulk buffer holds

**Representation invariant** (`BulkRep`): while a bulk insert is open, the buffer begins with the
prefix and the pending rows joined by commas, `bulk_ptr` is the length of that text and `bulk_cnt`
the number of rows.  Each bulk function gets one lemma that says what it does to a connection in
this state; later modules use these and never unfold the functions.
-/

namespace Sysbench.Database

/-- The text of a multi-row INSERT: the prefix, then the rows separated by commas. -/
def rowsText (q : CStr) (rows : List CStr) : List UInt8 :=
  q.bytes ++ [44].intercalate (rows.map CStr.bytes)

theorem intercalate_snoc {α : Type*} (sep x : List α) :
    ∀ {xs : List (List α)}, xs ≠ [] →
      sep.intercalate (xs ++ [x]) = sep.intercalate xs ++ (sep ++ x)
  | [y], _ => by simp [List.intercalate_cons_cons]
  | y :: z :: xs, _ => by
      have ih := intercalate_snoc sep x (List.cons_ne_nil z xs)
      rw [List.cons_append] at ih
      simp [List.intercalate_cons_cons, ih]

@[simp] theorem rowsText_nil (q : CStr) : rowsText q [] = q.bytes := by
  simp [rowsText]

@[simp] theorem rowsText_singleton (q r : CStr) : rowsText q [r] = q.bytes ++ r.bytes := by
  simp [rowsText]

/-- A further row costs a comma and its own text. -/
theorem rowsText_snoc (q r : CStr) {rows : List CStr} (h : rows ≠ []) :
    rowsText q (rows ++ [r]) = rowsText q rows ++ 44 :: r.bytes := by
  rw [rowsText, List.map_append, List.map_singleton,
    intercalate_snoc _ _ (by simpa using h), ← List.append_assoc]
  rfl

/-- The length of the text with one more row, first or not. -/
theorem length_rowsText_snoc (q r : CStr) (rows : List CStr) :
    (rowsText q (rows ++ [r])).length
      = (rowsText q rows).length + r.length + if rows = [] then 0 else 1 := by
  by_cases h : rows = []
  · simp [h, CStr.length]
  · rw [rowsText_snoc q r h, if_neg h]
    simp [CStr.length]
    omega

/-- No terminator occurs inside the text. -/
theorem zero_notMem_rowsText (q : CStr) (rows : List CStr) : 0 ∉ rowsText q rows := by
  induction rows using List.reverseRecOn with
  | nil => simpa using q.noNul
  | append_singleton rows r ih =>
    by_cases h : rows = []
    · simp [h, q.noNul, r.noNul]
    · rw [rowsText_snoc q r h]
      simp [ih, r.noNul]

/-- Even empty rows take a byte each, the first one apart. -/
theorem length_le_rowsText (q : CStr) (rows : List CStr) :
    rows.length ≤ (rowsText q rows).length + 1 := by
  induction rows using List.reverseRecOn with
  | nil => simp
  | append_singleton rows r ih =>
    rw [length_rowsText_snoc]
    by_cases h : rows = []
    · simp [h]
    · simp [h]
      omega

variable {ρ : Type} {text : ρ → CStr} {q : CStr} {c c' : DbConn ρ} {row : ρ} {rp : Replies}

/-- The text a connection should be holding. -/
def bulkText (q : CStr) (text : ρ → CStr) (rows : List ρ) : List UInt8 := rowsText q (rows.map text)

/-- `q` and the pending rows of `c` are in its buffer. -/
structure BulkRep (q : CStr) (text : ρ → CStr) (c : DbConn ρ) : Prop where
  driver : c.driver.isSome
  buffer : ∃ m, c.bulkBuffer = some m ∧ bulkText q text c.bulkRows <+: m.1 ∧
    (c.bulkRows ≠ [] → bulkText q text c.bulkRows ++ [0] <+: m.1)
  buflen : c.bulkBuflen = bulkPacketSize
  ptr : c.bulkPtr = (bulkText q text c.bulkRows).length
  ptrOrig : c.bulkPtrOrig = q.length
  cnt : c.bulkCnt = c.bulkRows.length
  fits : (bulkText q text c.bulkRows).length + 1 ≤ bulkPacketSize

/-- Whether one more row fits, terminator included. -/
def RowFits (q : CStr) (text : ρ → CStr) (rows : List ρ) (row : ρ) : Prop :=
  (bulkText q text (rows ++ [row])).length + 1 ≤ bulkPacketSize

instance (rows : List ρ) (row : ρ) : Decidable (RowFits q text rows row) :=
  inferInstanceAs (Decidable (_ ≤ _))

@[simp] theorem bulkText_nil (q : CStr) (text : ρ → CStr) : bulkText q text [] = q.bytes := by
  simp [bulkText]

/-- The first row fits when prefix, row and terminator do. -/
theorem rowFits_nil :
    RowFits q text [] row ↔ q.length + (text row).length + 1 ≤ bulkPacketSize := by
  simp [RowFits, bulkText, CStr.length]

theorem length_bulkText_snoc (q : CStr) (text : ρ → CStr) (rows : List ρ) (row : ρ) :
    (bulkText q text (rows ++ [row])).length
      = (bulkText q text rows).length + (text row).length + if rows = [] then 0 else 1 := by
  simp [bulkText, length_rowsText_snoc]

namespace BulkRep

theorem comma_eq (h : BulkRep q text c) : c.comma = if c.bulkRows = [] then 0 else 1 := by
  cases hr : c.bulkRows <;> simp [DbConn.comma, h.cnt, hr]

theorem cnt_eq_zero (h : BulkRep q text c) : c.bulkCnt = 0 ↔ c.bulkRows = [] := by
  rw [h.cnt, List.length_eq_zero_iff]

/-- The length that `db_bulk_insert_next` computes for the text with `row`. -/
theorem ptr_add (h : BulkRep q text c) (row : ρ) :
    c.bulkPtr + (text row).length + c.comma = (bulkText q text (c.bulkRows ++ [row])).length := by
  rw [length_bulkText_snoc, h.ptr, h.comma_eq]

/-- **The space check asks whether the row fits**, as long as its length is that of a real row. -/
theorem bulkFull_iff (h : BulkRep q text c) (hlen : (text row).length < 2 ^ 31) :
    bulkFull (text row) c ↔ ¬ RowFits q text c.bulkRows row := by
  have hadd := h.ptr_add row
  have hfits := h.fits
  have hcomma : c.comma ≤ 1 := by unfold DbConn.comma; split <;> omega
  have hptr := h.ptr
  have hsize : bulkPacketSize = 524288 := rfl
  rw [bulkFull, RowFits, h.buflen, toU32_of_lt (show (text row).length < 2 ^ 32 by omega)]
  have hsum : toU32 ((c.bulkPtr : ℤ) + (text row).length + 1 + c.comma)
      = c.bulkPtr + (text row).length + 1 + c.comma := by
    exact_mod_cast toU32_of_lt (n := c.bulkPtr + (text row).length + 1 + c.comma) (by omega)
  rw [hsum]
  omega

/-- The stores of `db_bulk_insert_next` put the row behind the text. -/
theorem bulkCopy_ok (h : BulkRep q text c) (hrow : RowFits q text c.bulkRows row)
    {m : Block bulkPacketSize} (hm : bulkText q text c.bulkRows <+: m.1) :
    ∃ m', bulkCopy (text row) c m = .ok m' ∧
      bulkText q text (c.bulkRows ++ [row]) ++ [0] <+: m'.1 := by
  have hlen := length_bulkText_snoc q text c.bulkRows row
  unfold RowFits at hrow
  unfold bulkCopy
  rw [h.ptr]
  by_cases hr : c.bulkRows = []
  · rw [if_neg (by simp [h.cnt, hr])]
    rw [if_pos hr] at hlen
    obtain ⟨m', hm', hp⟩ := Block.strcpy_prefix (s := text row) hm (by omega)
    exact ⟨m', hm', by simpa [hr, bulkText] using hp⟩
  · rw [if_pos (by rw [h.cnt]; exact List.length_pos_iff.mpr hr)]
    rw [if_neg hr] at hlen
    have hcomma : (bulkText q text c.bulkRows).length + [(44 : UInt8)].length ≤ bulkPacketSize := by
      simp
      omega
    obtain ⟨m₁, hm₁, hp₁⟩ := Block.store_prefix hm hcomma
    obtain ⟨m₂, hm₂, hp₂⟩ := Block.strcpy_prefix (s := text row) hp₁ (by simp; omega)
    refine ⟨m₂, ?_, ?_⟩
    · simpa [hm₁, bind, Except.bind] using hm₂
    · have hsnoc : bulkText q text (c.bulkRows ++ [row])
          = bulkText q text c.bulkRows ++ 44 :: (text row).bytes := by
        simpa [bulkText] using rowsText_snoc q (text row) (mt List.map_eq_nil_iff.mp hr)
      simpa [hsnoc] using hp₂

/-- A row that does not fit is stored past the end. -/
theorem bulkCopy_overrun (h : BulkRep q text c) (hrow : ¬ RowFits q text c.bulkRows row)
    (m : Block bulkPacketSize) : bulkCopy (text row) c m = .error .overrun := by
  have hadd := h.ptr_add row
  unfold RowFits at hrow
  have hcomma : c.comma = if 0 < c.bulkCnt then 1 else 0 := rfl
  unfold bulkCopy
  split_ifs with hcnt
  · rw [if_pos hcnt] at hcomma
    cases hst : m.store c.bulkPtr [44] with
    | error e =>
      unfold Block.store at hst
      split at hst <;> simp_all [bind, Except.bind]
    | ok m' =>
      refine Block.store_overrun ?_
      simp [CStr.length] at hadd ⊢
      omega
  · rw [if_neg hcnt] at hcomma
    refine Block.store_overrun ?_
    simp [CStr.length] at hadd ⊢
    omega

/-- **Putting a row that fits behind the text** keeps the invariant. -/
theorem bulkAppend_ok (h : BulkRep q text c) (hrow : RowFits q text c.bulkRows row) :
    ∃ c', bulkAppend text row c = .ok c' ∧ BulkRep q text c' ∧
      c'.bulkRows = c.bulkRows ++ [row] := by
  obtain ⟨m, hm, hp, -⟩ := h.buffer
  obtain ⟨m', hm', hp'⟩ := h.bulkCopy_ok hrow hp
  have hsize : bulkPacketSize = 524288 := rfl
  have hadd := h.ptr_add row
  have hcount := length_le_rowsText q (c.bulkRows.map text)
  rw [List.length_map] at hcount
  have hfits : (rowsText q (c.bulkRows.map text)).length + 1 ≤ bulkPacketSize := h.fits
  unfold RowFits at hrow
  simp only [bulkAppend, hm, hm', bind, Except.bind]
  refine ⟨_, rfl, ⟨h.driver, ?_, h.buflen, ?_, h.ptrOrig, ?_, hrow⟩, rfl⟩
  · exact ⟨m', rfl, (List.prefix_append _ _).trans hp', fun _ => hp'⟩
  · rw [toU32_of_lt (show (text row).length < 2 ^ 32 by omega), ← hadd]
    exact_mod_cast toU32_of_lt (n := c.bulkPtr + (text row).length + c.comma) (by omega)
  · rw [List.length_append, List.length_singleton, ← h.cnt]
    rw [← h.cnt] at hcount
    exact_mod_cast toU32_of_lt (n := c.bulkCnt + 1) (by omega)

/-- **A row that does not fit runs over the end of the buffer.** -/
theorem bulkAppend_overrun (h : BulkRep q text c) (hrow : ¬ RowFits q text c.bulkRows row) :
    bulkAppend text row c = .error .overrun := by
  obtain ⟨m, hm, -⟩ := h.buffer
  simp only [bulkAppend, hm, h.bulkCopy_overrun hrow, bind, Except.bind]

/-- A row put behind the text did fit. -/
theorem of_bulkAppend (h : BulkRep q text c) (ha : bulkAppend text row c = .ok c') :
    BulkRep q text c' ∧ c'.bulkRows = c.bulkRows ++ [row] := by
  by_cases hrow : RowFits q text c.bulkRows row
  · obtain ⟨d, hd, hrep, hrows⟩ := h.bulkAppend_ok hrow
    obtain rfl : d = c' := Except.ok.inj (hd.symm.trans ha)
    exact ⟨hrep, hrows⟩
  · rw [h.bulkAppend_overrun hrow] at ha
    cases ha

theorem commitCnt (h : BulkRep q text c) (k : ℕ) : BulkRep q text { c with bulkCommitCnt := k } :=
  ⟨h.driver, h.buffer, h.buflen, h.ptr, h.ptrOrig, h.cnt, h.fits⟩

/-- Moving back behind the prefix leaves it in place. -/
theorem reset (h : BulkRep q text c) (k : ℕ) :
    BulkRep q text (bulkReset { c with bulkCommitCnt := k }) := by
  obtain ⟨m, hm, hp, -⟩ := h.buffer
  have hq : q.bytes <+: bulkText q text c.bulkRows := List.prefix_append _ _
  refine ⟨h.driver, ⟨m, hm, ?_, fun hne => (hne rfl).elim⟩, h.buflen, ?_, h.ptrOrig, rfl, ?_⟩
  · simpa using hq.trans hp
  · rw [bulkReset_bulkRows, bulkText_nil]
    exact h.ptrOrig
  · rw [bulkReset_bulkRows, bulkText_nil]
    exact le_trans (Nat.succ_le_succ hq.length_le) h.fits

end BulkRep

/-! ## One call -/

/-- `db_bulk_insert_init` opens an empty bulk insert, or changes no row. -/
theorem bulkRep_of_init {mem : Option (Block bulkPacketSize)}
    (h : dbBulkInsertInit q mem c = .ok (0, c')) : BulkRep q text c' ∧ c'.bulkRows = [] := by
  unfold dbBulkInsertInit at h
  split at h
  · cases h
  rename_i caps hcaps
  have hd : c.driver.isSome := by
    cases hdrv : c.driver
    · simp [hdrv] at hcaps
    · rfl
  by_cases hlen : bulkPacketSize < q.length + 1
  · rw [if_pos hlen] at h
    cases h
  rw [if_neg hlen] at h
  split at h
  · cases h
  rename_i m
  have hsize : bulkPacketSize = 524288 := rfl
  obtain ⟨m', hm', hp⟩ := Block.strcpy_prefix (m := m) (s := q) List.nil_prefix (by simp; omega)
  rw [List.length_nil] at hm'
  rw [hm'] at h
  obtain rfl := (Prod.mk.inj (Except.ok.inj h)).2
  rw [List.nil_append] at hp
  have hptr : toU32 q.length = q.length := toU32_of_lt (by omega)
  refine ⟨⟨hd, ⟨m', rfl, ?_, fun hne => (hne rfl).elim⟩, rfl, ?_, hptr, rfl, ?_⟩, rfl⟩
  · simpa using (List.prefix_append _ _).trans hp
  · simpa [CStr.length] using hptr
  · simp [CStr.length] at hlen ⊢
    omega

/-- It does open one when the driver describes itself, the prefix leaves room for its terminator
and there is memory. -/
theorem dbBulkInsertInit_ok {caps : DrvCaps} (hcaps : c.driver.bind DbDriver.describe = some caps)
    (m : Block bulkPacketSize) (hq : q.length + 1 ≤ bulkPacketSize) :
    ∃ c', dbBulkInsertInit q (some m) c = .ok (0, c') := by
  obtain ⟨m', hm', -⟩ := Block.strcpy_prefix (m := m) (s := q) List.nil_prefix (by simpa using hq)
  rw [List.length_nil] at hm'
  unfold dbBulkInsertInit
  rw [hcaps]
  simp only
  rw [if_neg (by omega), hm']
  exact ⟨_, rfl⟩

/-- The INSERT attempts of a flush up to the one that succeeds. -/
def insertLog (query : Query ρ) (j : ℕ) : List (Sent ρ) :=
  List.replicate j ⟨query, false⟩ ++ [⟨query, true⟩]

/-- The first attempt to succeed is number `j`, of five. -/
def Replies.FirstOk (rp : Replies) (j : ℕ) : Prop :=
  j < 5 ∧ rp.insert j = true ∧ ∀ i < j, rp.insert i = false

/-- Some attempt of the flush succeeds. -/
def Replies.Inserts (rp : Replies) : Prop := ∃ i < 5, rp.insert i = true

instance (rp : Replies) : Decidable rp.Inserts :=
  inferInstanceAs (Decidable (∃ i < 5, rp.insert i = true))

/-- The retry loop stops at the first success, if there is one. -/
theorem insertRetry_cases (query : Query ρ) (reply : ℕ → Bool) :
    ∀ n i, (∀ k < n, reply (i + k) = false) ∧
        insertRetry query reply n i = (false, List.replicate n ⟨query, false⟩) ∨
      ∃ j < n, reply (i + j) = true ∧ (∀ k < j, reply (i + k) = false) ∧
        insertRetry query reply n i = (true, insertLog query j)
  | 0, i => .inl ⟨by simp, rfl⟩
  | n + 1, i => by
      have hshift : ∀ k, i + 1 + k = i + (k + 1) := fun k => by omega
      cases hi : reply i with
      | true => exact .inr ⟨0, by omega, by simpa, by simp, by simp [insertRetry, hi, insertLog]⟩
      | false =>
        obtain ⟨hall, hlog⟩ | ⟨j, hj, hok, hbefore, hlog⟩ := insertRetry_cases query reply n (i + 1)
        · refine .inl ⟨fun k hk => ?_, by simp [insertRetry, hi, hlog, List.replicate_succ]⟩
          cases k with
          | zero => simpa
          | succ k => rw [← hshift]; exact hall k (by omega)
        · refine .inr ⟨j + 1, by omega, by rwa [← hshift], fun k hk => ?_,
            by simp [insertRetry, hi, hlog, insertLog, List.replicate_succ]⟩
          cases k with
          | zero => simpa
          | succ k => rw [← hshift]; exact hbefore k (by omega)

/-- Whether a flush whose INSERT succeeded goes on to COMMIT. -/
def CommitDue (isLast : Bool) (c : DbConn ρ) : Prop :=
  c.bulkCommitMax ≠ 0 ∧ (isLast ∨ c.bulkCommitMax ≤ toU32 (c.bulkCommitCnt + c.bulkCnt))

instance (isLast : Bool) (c : DbConn ρ) : Decidable (CommitDue isLast c) :=
  inferInstanceAs (Decidable (_ ∧ _))

/-- Whether a flush empties the buffer: some INSERT attempt succeeds and so does the COMMIT, where
one is due. -/
def Flushes (isLast : Bool) (rp : Replies) (c : DbConn ρ) : Prop :=
  rp.Inserts ∧ (CommitDue isLast c → rp.commit = true)

instance (isLast : Bool) (rp : Replies) (c : DbConn ρ) : Decidable (Flushes isLast rp c) :=
  inferInstanceAs (Decidable (_ ∧ _))

/-- The INSERT held by a connection. -/
def DbConn.insert (q : CStr) (text : ρ → CStr) (c : DbConn ρ) : Query ρ :=
  .insert (bulkText q text c.bulkRows) c.bulkRows

/-- **A flush of pending rows ends in one of three ways**: no attempt succeeds and nothing changes;
the INSERT succeeds and its COMMIT fails, so that the rows stay pending; or the buffer is emptied.
-/
theorem dbBulkDoInsert_cases (h : BulkRep q text c) (hr : c.bulkRows ≠ []) (isLast : Bool)
    (rp : Replies) :
    (¬ rp.Inserts ∧ dbBulkDoInsert isLast rp c
      = .ok (1, c, List.replicate 5 ⟨c.insert q text, false⟩)) ∨
    (∃ j k, rp.FirstOk j ∧ CommitDue isLast c ∧ rp.commit = false ∧ dbBulkDoInsert isLast rp c
      = .ok (1, { c with bulkCommitCnt := k },
        insertLog (c.insert q text) j ++ [⟨.commit, false⟩])) ∨
    (∃ j k, rp.FirstOk j ∧ Flushes isLast rp c ∧ dbBulkDoInsert isLast rp c
      = .ok (0, bulkReset { c with bulkCommitCnt := k },
        insertLog (c.insert q text) j
          ++ if CommitDue isLast c then [⟨.commit, true⟩] else [])) := by
  obtain ⟨m, hm, -, hp⟩ := h.buffer
  have hquery : bulkQuery c = .ok (c.insert q text) := by
    simp only [bulkQuery, hm, DbConn.insert]
    rw [m.text_eq (hp hr) (zero_notMem_rowsText _ _)]
  have hd : ¬ c.driver.isNone := by simpa [← Option.isSome_iff_ne_none] using h.driver
  unfold dbBulkDoInsert
  rw [if_neg (mt h.cnt_eq_zero.mp hr), if_neg hd, hquery]
  simp only [bind, Except.bind]
  obtain ⟨hall, hlog⟩ | ⟨j, hj, hok, hbefore, hlog⟩ :=
    insertRetry_cases (c.insert q text) rp.insert 5 0
  · refine .inl ⟨fun ⟨i, hi, hio⟩ => ?_, by rw [hlog]; rfl⟩
    simpa [hio] using hall i hi
  · simp only [zero_add] at hok hbefore
    have hfirst : rp.FirstOk j := ⟨hj, hok, hbefore⟩
    rw [hlog]
    simp only [Bool.not_true, Bool.false_eq_true, if_false]
    right
    by_cases hmax : c.bulkCommitMax = 0
    · have hdue : ¬ CommitDue isLast c := fun hd => hd.1 hmax
      rw [if_neg (not_not.mpr hmax)]
      exact .inr ⟨j, c.bulkCommitCnt, hfirst, ⟨⟨j, hj, hok⟩, fun hd => (hdue hd).elim⟩, by
        rw [if_neg hdue, List.append_nil]⟩
    rw [if_pos hmax]
    by_cases hlast : isLast ∨ c.bulkCommitMax ≤ toU32 (c.bulkCommitCnt + c.bulkCnt)
    · have hdue : CommitDue isLast c := ⟨hmax, hlast⟩
      rw [if_pos hlast]
      cases hc : rp.commit with
      | false => exact .inl ⟨j, _, hfirst, hdue, rfl, rfl⟩
      | true =>
        exact .inr ⟨j, 0, hfirst, ⟨⟨j, hj, hok⟩, fun _ => hc⟩, by rw [if_pos hdue]; rfl⟩
    · have hdue : ¬ CommitDue isLast c := fun hd => hlast hd.2
      rw [if_neg hlast]
      exact .inr ⟨j, _, hfirst, ⟨⟨j, hj, hok⟩, fun hd => (hdue hd).elim⟩, by
        rw [if_neg hdue, List.append_nil]⟩

/-- With nothing pending a flush does nothing. -/
theorem dbBulkDoInsert_empty (h : BulkRep q text c) (hr : c.bulkRows = []) (isLast : Bool)
    (rp : Replies) : dbBulkDoInsert isLast rp c = .ok (0, c, []) :=
  if_pos (h.cnt_eq_zero.mpr hr)

/-- A flush keeps the representation. -/
theorem BulkRep.of_dbBulkDoInsert {ret : ℤ} {sent : List (Sent ρ)} {isLast : Bool}
    (h : BulkRep q text c) (hd : dbBulkDoInsert isLast rp c = .ok (ret, c', sent)) :
    BulkRep q text c' := by
  by_cases hr : c.bulkRows = []
  · cases (dbBulkDoInsert_empty h hr isLast rp).symm.trans hd
    exact h
  obtain ⟨-, hdo⟩ | ⟨j, k, -, -, -, hdo⟩ | ⟨j, k, -, -, hdo⟩ := dbBulkDoInsert_cases h hr isLast rp
  · cases hdo.symm.trans hd
    exact h
  · cases hdo.symm.trans hd
    exact h.commitCnt k
  · cases hdo.symm.trans hd
    exact h.reset k

/-- A row that fits joins the pending ones, and nothing is sent. -/
theorem dbBulkInsertNext_room (h : BulkRep q text c) (hlen : (text row).length < 2 ^ 31)
    (hrow : RowFits q text c.bulkRows row) (rp : Replies) :
    ∃ c', dbBulkInsertNext text row rp c = .ok (0, c', []) ∧ BulkRep q text c' ∧
      c'.bulkRows = c.bulkRows ++ [row] := by
  obtain ⟨c', ha, hrep, hrows⟩ := h.bulkAppend_ok hrow
  have hroom : ¬ bulkFull (text row) c := mt (h.bulkFull_iff hlen).mp (not_not.mpr hrow)
  exact ⟨c', by rw [dbBulkInsertNext, if_neg hroom, ha]; rfl, hrep, hrows⟩

/-- `db_bulk_insert_done` is a flush, whatever its result, and then frees the buffer. -/
theorem dbBulkInsertDone_of {ret : ℤ} {sent : List (Sent ρ)}
    (h : dbBulkDoInsert true rp c = .ok (ret, c', sent)) :
    dbBulkInsertDone rp c = .ok ({ c' with bulkBuffer := none }, sent) := by
  rw [dbBulkInsertDone, h]
  rfl

/-- **What `db_bulk_insert_next` does when it returns**: it refuses a first row, it fails to flush,
it flushes and takes the row, or it takes the row behind the pending ones. -/
theorem dbBulkInsertNext_cases (h : BulkRep q text c) {ret : ℤ} {sent : List (Sent ρ)}
    (hn : dbBulkInsertNext text row rp c = .ok (ret, c', sent)) :
    (ret = 1 ∧ c.bulkRows = [] ∧ c' = c ∧ sent = []) ∨
    (ret = 1 ∧ c.bulkRows ≠ [] ∧ dbBulkDoInsert false rp c = .ok (1, c', sent)) ∨
    (ret = 0 ∧ c.bulkRows ≠ [] ∧ (∃ c₁, dbBulkDoInsert false rp c = .ok (0, c₁, sent)) ∧
      BulkRep q text c' ∧ c'.bulkRows = [row]) ∨
    (ret = 0 ∧ sent = [] ∧ BulkRep q text c' ∧ c'.bulkRows = c.bulkRows ++ [row]) := by
  unfold dbBulkInsertNext at hn
  by_cases hfull : bulkFull (text row) c
  · rw [if_pos hfull] at hn
    by_cases hr : c.bulkRows = []
    · rw [if_pos (h.cnt_eq_zero.mpr hr)] at hn
      cases hn
      exact .inl ⟨rfl, hr, rfl, rfl⟩
    rw [if_neg (mt h.cnt_eq_zero.mp hr)] at hn
    obtain ⟨-, hdo⟩ | ⟨j, k, -, -, -, hdo⟩ | ⟨j, k, -, -, hdo⟩ :=
      dbBulkDoInsert_cases h hr false rp
    · rw [hdo] at hn
      cases hn
      exact .inr (.inl ⟨rfl, hr, hdo⟩)
    · rw [hdo] at hn
      cases hn
      exact .inr (.inl ⟨rfl, hr, hdo⟩)
    · rw [hdo] at hn
      cases ha : bulkAppend text row (bulkReset { c with bulkCommitCnt := k }) with
      | error e => simp [ha, bind, Except.bind] at hn
      | ok d =>
        obtain ⟨hrep, hrows⟩ := (h.reset k).of_bulkAppend ha
        simp only [ha, bind, Except.bind, ne_eq, not_true_eq_false, if_false] at hn
        cases hn
        exact .inr (.inr (.inl ⟨rfl, hr, ⟨_, hdo⟩, hrep, hrows⟩))
  · rw [if_neg hfull] at hn
    cases ha : bulkAppend text row c with
    | error e => simp [ha, bind, Except.bind] at hn
    | ok d =>
      obtain ⟨hrep, hrows⟩ := h.of_bulkAppend ha
      simp only [ha, bind, Except.bind] at hn
      cases hn
      exact .inr (.inr (.inr ⟨rfl, rfl, hrep, hrows⟩))

/-! ## One bulk insert from beginning to end -/

/-- `db_bulk_insert_next` for each row in order, whatever the calls return: the values returned, the
connection and the queries sent. -/
def bulkNexts (text : ρ → CStr) (replies : ρ → Replies) :
    List ρ → DbConn ρ → Except Fault (List ℤ × DbConn ρ × List (Sent ρ))
  | [], c => .ok ([], c, [])
  | row :: rows, c => do
    let r ← dbBulkInsertNext text row (replies row) c
    let rs ← bulkNexts text replies rows r.2.1
    .ok (r.1 :: rs.1, rs.2.1, r.2.2 ++ rs.2.2)

/-- What a bulk insert leaves: the values returned to the caller, the rows that
`db_bulk_insert_done` found pending, the queries sent and the connection. -/
structure BulkRun (ρ : Type) where
  rets : List ℤ
  pending : List ρ
  sent : List (Sent ρ)
  conn : DbConn ρ

/-- `db_bulk_insert_init`, `db_bulk_insert_next` for every row, `db_bulk_insert_done`.  A failed
initialisation raises an error in the script, which ends the run. -/
def bulkRun (text : ρ → CStr) (replies : ρ → Replies) (last : Replies) (q : CStr)
    (mem : Option (Block bulkPacketSize)) (rows : List ρ) (c : DbConn ρ) :
    Except Fault (BulkRun ρ) := do
  let i ← dbBulkInsertInit q mem c
  if i.1 ≠ 0 then .ok ⟨[i.1], [], [], i.2⟩
  else do
    let n ← bulkNexts text replies rows i.2
    let d ← dbBulkInsertDone last n.2.1
    .ok ⟨i.1 :: n.1, n.2.1.bulkRows, n.2.2 ++ d.2, d.1⟩

end Sysbench.Database
