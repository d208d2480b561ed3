import Sysbench.Machinery.CString
import Sysbench.Machinery.MachineInt

/-!
# Database/BulkInsert — multi-row inserts through one reused buffer

The `db_bulk_*` functions of `db_driver.c`: a prefix `INSERT … VALUES` stays at the front of
`bulk_buffer` and rows are appended behind it, separated by commas, until the next one would not
fit; then the whole text is sent and the write position moves back behind the prefix.

The answers of the server are an input (`Replies`), one for each of the five INSERT attempts of a
call and one for its COMMIT.  What a call sends is an output, each query with its answer.  Rows are
of any type with a text: `bulkRows` has no counterpart in the source, it names the rows that
`bulk_cnt` counts, so that an INSERT can be traced back to the calls its rows came from.  That the
text sent is the text of these rows is `BulkRep`.
-/

namespace Sysbench.Database

/-- `BULK_PACKET_SIZE`. -/
def bulkPacketSize : ℕ := 512 * 1024

/-- `ROWS_BEFORE_COMMIT`. -/
def rowsBeforeCommit : ℕ := 1000

/-- The fields of `drv_caps_t` the bulk functions read. -/
structure DrvCaps where
  multiRowsInsert : Bool
  needsCommit : Bool
  deriving DecidableEq, Repr

/-- A driver, as far as `db_describe` goes: its capabilities, or failure. -/
structure DbDriver where
  describe : Option DrvCaps
  deriving DecidableEq, Repr

/-- The bulk fields of `db_conn_t`, zero after `db_connect`.  All counters are `unsigned int`. -/
structure DbConn (ρ : Type) where
  driver : Option DbDriver
  bulkSupported : Bool := false
  bulkCnt : ℕ := 0
  bulkBuffer : Option (Block bulkPacketSize) := none
  bulkBuflen : ℕ := 0
  bulkPtr : ℕ := 0
  bulkPtrOrig : ℕ := 0
  bulkCommitCnt : ℕ := 0
  bulkCommitMax : ℕ := 0
  bulkRows : List ρ := []

/-- What a bulk function sends: the buffer's text, holding some rows, or `COMMIT`. -/
inductive Query (ρ : Type)
  | insert (text : List UInt8) (rows : List ρ)
  | commit

/-- A query sent, and whether `db_query` returned a result for it. -/
structure Sent (ρ : Type) where
  query : Query ρ
  ok : Bool

/-- The server's answers to the queries one call may send. -/
structure Replies where
  insert : ℕ → Bool
  commit : Bool

/-- A server that refuses nothing. -/
def Replies.allOk : Replies := ⟨fun _ => true, true⟩

variable {ρ : Type}

/-- The query `db_bulk_do_insert` sends: the text in the buffer. -/
def bulkQuery (c : DbConn ρ) : Except Fault (Query ρ) :=
  match c.bulkBuffer with
  | none => .error .nullPointer
  | some m => .ok (.insert m.text c.bulkRows)

/-- The retry loop of `db_bulk_do_insert`: `n` attempts are left, `i` were made. -/
def insertRetry (query : Query ρ) (reply : ℕ → Bool) : ℕ → ℕ → Bool × List (Sent ρ)
  | 0, _ => (false, [])
  | n + 1, i =>
    if reply i then (true, [⟨query, true⟩])
    else
      let rest := insertRetry query reply n (i + 1)
      (rest.1, ⟨query, false⟩ :: rest.2)

/-- The end of `db_bulk_do_insert`: back behind the prefix. -/
def bulkReset (c : DbConn ρ) : DbConn ρ :=
  { c with bulkPtr := c.bulkPtrOrig, bulkCnt := 0, bulkRows := [] }

@[simp] theorem bulkReset_bulkRows (c : DbConn ρ) : (bulkReset c).bulkRows = [] := rfl

@[simp] theorem bulkReset_bulkPtr (c : DbConn ρ) : (bulkReset c).bulkPtr = c.bulkPtrOrig := rfl

/-- `db_bulk_do_insert`. -/
def dbBulkDoInsert (isLast : Bool) (rp : Replies) (c : DbConn ρ) :
    Except Fault (ℤ × DbConn ρ × List (Sent ρ)) :=
  if c.bulkCnt = 0 then .ok (0, c, [])
  -- without a driver `db_query` answers NULL each time and sends nothing
  else if c.driver.isNone then .ok (1, c, [])
  else do
    let query ← bulkQuery c
    let attempts := insertRetry query rp.insert 5 0
    if !attempts.1 then .ok (1, c, attempts.2)
    else if c.bulkCommitMax ≠ 0 then
      let cnt := toU32 (c.bulkCommitCnt + c.bulkCnt)
      if isLast ∨ c.bulkCommitMax ≤ cnt then
        if !rp.commit then
          .ok (1, { c with bulkCommitCnt := cnt }, attempts.2 ++ [⟨.commit, false⟩])
        else .ok (0, bulkReset { c with bulkCommitCnt := 0 }, attempts.2 ++ [⟨.commit, true⟩])
      else .ok (0, bulkReset { c with bulkCommitCnt := cnt }, attempts.2)
    else .ok (0, bulkReset c, attempts.2)

/-- `db_bulk_insert_init`; `mem` is what `malloc` returns. -/
def dbBulkInsertInit (query : CStr) (mem : Option (Block bulkPacketSize)) (c : DbConn ρ) :
    Except Fault (ℤ × DbConn ρ) :=
  match c.driver.bind DbDriver.describe with
  | none => .ok (1, c)
  | some caps =>
    if bulkPacketSize < query.length + 1 then .ok (1, c)
    else
      match mem with
      | none => .ok (1, { c with bulkBuflen := bulkPacketSize, bulkBuffer := none })
      | some m => do
        let m ← m.strcpy 0 query
        .ok (0, { c with
          bulkBuflen := bulkPacketSize
          bulkBuffer := some m
          bulkSupported := caps.multiRowsInsert
          bulkCommitMax := if caps.needsCommit then rowsBeforeCommit else 0
          bulkCommitCnt := 0
          bulkPtr := toU32 query.length
          bulkPtrOrig := toU32 query.length
          bulkCnt := 0
          bulkRows := [] })

/-- `(con->bulk_cnt > 0)`, as the integer C makes of it. -/
def DbConn.comma (c : DbConn ρ) : ℕ := if 0 < c.bulkCnt then 1 else 0

/-- The text stores of `db_bulk_insert_next`. -/
def bulkCopy (query : CStr) (c : DbConn ρ) (m : Block bulkPacketSize) :
    Except Fault (Block bulkPacketSize) :=
  if 0 < c.bulkCnt then do
    let m ← m.store c.bulkPtr [44]
    m.strcpy (c.bulkPtr + 1) query
  else m.strcpy c.bulkPtr query

/-- The second half of `db_bulk_insert_next`: the row is put behind the text. -/
def bulkAppend (text : ρ → CStr) (row : ρ) (c : DbConn ρ) : Except Fault (DbConn ρ) :=
  match c.bulkBuffer with
  | none => .error .nullPointer
  | some m => do
    let m ← bulkCopy (text row) c m
    .ok { c with
      bulkBuffer := some m
      bulkPtr := toU32 (c.bulkPtr + toU32 (text row).length + c.comma)
      bulkCnt := toU32 (c.bulkCnt + 1)
      bulkRows := c.bulkRows ++ [row] }

/-- The space check of `db_bulk_insert_next`, in `unsigned int` arithmetic. -/
def bulkFull (query : CStr) (c : DbConn ρ) : Prop :=
  c.bulkBuflen < toU32 (c.bulkPtr + toU32 query.length + 1 + c.comma)

instance (query : CStr) (c : DbConn ρ) : Decidable (bulkFull query c) :=
  inferInstanceAs (Decidable (_ < _))

/-- `db_bulk_insert_next`. -/
def dbBulkInsertNext (text : ρ → CStr) (row : ρ) (rp : Replies) (c : DbConn ρ) :
    Except Fault (ℤ × DbConn ρ × List (Sent ρ)) :=
  if bulkFull (text row) c then
    if c.bulkCnt = 0 then .ok (1, c, [])
    else do
      let r ← dbBulkDoInsert false rp c
      if r.1 ≠ 0 then .ok (1, r.2.1, r.2.2)
      else do
        let c' ← bulkAppend text row r.2.1
        .ok (0, c', r.2.2)
  else do
    let c' ← bulkAppend text row c
    .ok (0, c', [])

/-- `db_bulk_insert_done`: the result of the last flush is dropped. -/
def dbBulkInsertDone (rp : Replies) (c : DbConn ρ) : Except Fault (DbConn ρ × List (Sent ρ)) := do
  let r ← dbBulkDoInsert true rp c
  .ok ({ r.2.1 with bulkBuffer := none }, r.2.2)

end Sysbench.Database
