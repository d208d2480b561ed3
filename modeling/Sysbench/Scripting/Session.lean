import Sysbench.Machinery.MachineInt

/-!
# Scripting/Session — one connection to a MySQL server

Both ends of a connection: the **session** at the server, with the transaction it is in and the
writes that are not committed yet, and what `drv_mysql.c` makes of an error the server reports.  The
server is free to fail any statement with any code.  A statement that fails changes nothing, except
that some codes roll back a transaction opened by `BEGIN`; a branch opened by `XA START` stays
with the session whatever fails in it.
-/

namespace Sysbench.Scripting

/-! ## Statements -/

/-- The statements that change a table. -/
inductive Write
  | updateIndex (table id : ℤ)
  | updateNonIndex (table id : ℤ) (c : String)
  | delete (table id : ℤ)
  | insert (table id k : ℤ) (c pad : String)
  deriving DecidableEq, Repr

/-- The kinds of range queries. -/
inductive RangeQuery
  | simple
  | sum
  | order
  | distinct
  deriving DecidableEq, Repr

/-- The statements the scripts send. -/
inductive Stmt
  | beginTrx
  | commit
  | lockTables
  | unlockTables
  | xaStart (xid : String)
  | xaEnd (xid : String)
  | xaPrepare (xid : String)
  | xaCommit (xid : String)
  | xaCommitOnePhase (xid : String)
  | pointSelect (table id : ℤ)
  | rangeSelect (query : RangeQuery) (table first last : ℤ)
  | write (w : Write)
  deriving DecidableEq, Repr

/-- The statement is answered by rows: `mysql_field_count` is not zero. -/
def Stmt.hasRows : Stmt → Bool
  | .pointSelect .. | .rangeSelect .. => true
  | _ => false

/-- The write the statement makes, if it makes one. -/
def Stmt.write? : Stmt → Option Write
  | .write w => some w
  | _ => none

/-! ## The server -/

/-- The transaction a session is in: none, one opened by `BEGIN`, or a branch in one of its
states. -/
inductive Trx
  | outside
  | plain
  | active (xid : String)
  | idle (xid : String)
  | prepared (xid : String)
  deriving DecidableEq, Repr

/-- What a session holds: nothing, a transaction opened by `BEGIN`, or a branch. -/
inductive Held
  | nothing
  | transaction
  | branch
  deriving DecidableEq, Repr

/-- What the transaction amounts to. -/
def Trx.held : Trx → Held
  | .outside => .nothing
  | .plain => .transaction
  | _ => .branch

/-- Rows can be read and written: in `IDLE` and `PREPARED` they cannot. -/
def Trx.works : Trx → Bool
  | .idle _ | .prepared _ => false
  | _ => true

/-- The transaction after a statement that succeeds; `none` if the statement is not legal.  `BEGIN`
and `LOCK TABLES` commit a transaction that is open; `BEGIN` releases table locks, so that under it
`UNLOCK TABLES` has nothing to do. -/
def Trx.next (t : Trx) : Stmt → Option Trx
  | .beginTrx => if t.held = .branch then none else some .plain
  | .commit => if t.held = .branch then none else some .outside
  | .lockTables => if t.held = .branch then none else some .outside
  | .unlockTables => if t.held = .branch then none else some t
  | .xaStart xid => if t = .outside then some (.active xid) else none
  | .xaEnd xid => if t = .active xid then some (.idle xid) else none
  | .xaPrepare xid => if t = .idle xid then some (.prepared xid) else none
  | .xaCommit xid => if t = .prepared xid then some .outside else none
  | .xaCommitOnePhase xid => if t = .idle xid then some .outside else none
  | .pointSelect .. | .rangeSelect .. | .write _ => if t.works then some t else none

/-- The statement may be sent in this state. -/
def Legal (t : Trx) (q : Stmt) : Prop := (t.next q).isSome

instance (t : Trx) (q : Stmt) : Decidable (Legal t q) := inferInstanceAs (Decidable (_ = true))

/-- A session: its transaction, and the writes that wait for a commit. -/
structure Session where
  trx : Trx
  pending : List Write
  deriving DecidableEq, Repr

/-- A connection that has just been made. -/
def Session.fresh : Session := ⟨.outside, []⟩

/-- A statement succeeds and takes the transaction to `t`: the session, and what is committed.  A
write outside a transaction commits itself. -/
def Session.exec (s : Session) (t : Trx) : Stmt → Session × List (List Write)
  | .write w => if s.trx = .outside then (s, [[w]]) else (⟨t, s.pending ++ [w]⟩, [])
  | .beginTrx | .commit | .lockTables | .xaCommit _ | .xaCommitOnePhase _ =>
    (⟨t, []⟩, [s.pending])
  | _ => (⟨t, s.pending⟩, [])

/-! ## The driver -/

/-- `db_error_t`. -/
inductive DbError
  | none
  | restartTransaction
  | reconnected
  | failed
  deriving DecidableEq, Repr

/-- A call of the client library fails.  Where the driver would connect again, `reconnect` says
whether it can, or gives up because of `sb_globals.error`. -/
structure Failure where
  code : ℕ
  reconnect : Bool
  deriving DecidableEq, Repr

/-- How errors are treated: `--mysql-ignore-errors` at the client, and at the server the codes on
which it rolls a transaction back. -/
structure ErrorPolicy where
  ignored : List String
  rollsBack : ℕ → Bool

/-- The default list, on a server that rolls a transaction back on a deadlock and leaves it open
on a lock wait timeout. -/
def ErrorPolicy.default : ErrorPolicy := ⟨["1213", "1020", "1205"], (· == 1213)⟩

/-- The value of a string of digits, as far as it goes. -/
def digitsValue (ds : List Char) : ℤ :=
  (ds.takeWhile Char.isDigit).foldl (fun n d => 10 * n + (d.toNat - '0'.toNat : ℕ)) 0

/-- `atoi`, which skips what `isspace` accepts. -/
def atoi (val : String) : ℤ :=
  match val.toList.dropWhile (· ∈ [' ', '\t', '\n', '\x0b', '\x0c', '\r']) with
  | '-' :: ds => -digitsValue ds
  | '+' :: ds => digitsValue ds
  | ds => digitsValue ds

/-- `CR_SERVER_LOST`, `CR_SERVER_GONE_ERROR`, `CR_TCP_CONNECTION`, `CR_SERVER_LOST_EXTENDED`. -/
def lostCodes : List ℕ := [2013, 2006, 2011, 2055]

/-- `check_error`, with `mysql_drv_reconnect`. -/
def checkError (ignored : List String) (f : Failure) : DbError :=
  if ignored.any fun val => f.code == toU32 (atoi val) || val == "all" then
    if f.code ∈ lostCodes then if f.reconnect then .reconnected else .failed
    else .restartTransaction
  else .failed

/-- A lock wait timeout is ignored. -/
example : checkError ErrorPolicy.default.ignored ⟨1205, false⟩ = .restartTransaction := by decide

variable (p : ErrorPolicy)

/-- What `db_query` returns for a failed statement: after a reconnect, too, the transaction is to be
restarted. -/
def errno (f : Failure) : DbError :=
  match checkError p.ignored f with
  | .reconnected => .restartTransaction
  | e => e

/-- The failure ends what the session holds: the connection is made anew, or the server rolls
back. -/
def loses (h : Held) (f : Failure) : Bool :=
  checkError p.ignored f == .reconnected || (h == .transaction && p.rollsBack f.code)

/-- The session once the driver has seen to the failure. -/
def Session.afterError (s : Session) (f : Failure) : Session :=
  if loses p s.trx.held f then .fresh else s

/-- What happens to a statement: `mysql_real_query` fails or not, and so does
`mysql_store_result`. -/
structure Outcome where
  query : Option Failure := none
  store : Option Failure := none
  deriving DecidableEq, Repr

/-- Of the statements of an attempt only the `k`-th fails. -/
def failsAt (k code : ℕ) : ℕ → Outcome :=
  fun i => if i = k then { query := some ⟨code, false⟩ } else {}

/-- The session after a call, what has been committed, and `db_errno`. -/
structure Reply where
  session : Session
  commits : List (List Write)
  errno : DbError

/-- `ER_XAER_OUTSIDE` and `ER_XAER_RMFAIL`: how an illegal statement is refused. -/
def refusal : Trx → Failure
  | .plain => ⟨1400, false⟩
  | _ => ⟨1399, false⟩

/-- `db_query` on `mysql_drv_query`. -/
def dbQuery (s : Session) (q : Stmt) (o : Outcome) : Reply :=
  match s.trx.next q, o.query with
  | none, _ => ⟨s.afterError p (refusal s.trx), [], errno p (refusal s.trx)⟩
  | some _, some f => ⟨s.afterError p f, [], errno p f⟩
  | some t, none => ⟨(s.exec t q).1, (s.exec t q).2, .none⟩

variable {p} {s : Session} {q : Stmt} {o : Outcome} {f : Failure}

/-- A failure is never mistaken for success. -/
theorem errno_ne_none : errno p f ≠ .none := by
  unfold errno checkError
  split_ifs <;> simp

/-- Reading leaves the session as it is. -/
theorem next_of_hasRows {t : Trx} (ht : t.works = true) (hq : q.hasRows = true) :
    t.next q = some t := by
  cases q <;> first | exact if_pos ht | cases hq

theorem exec_of_hasRows (hq : q.hasRows = true) : s.exec s.trx q = (s, []) := by
  cases q <;> first | rfl | cases hq

theorem dbQuery_failed (hq : Legal s.trx q) (ho : o.query = some f) :
    dbQuery p s q o = ⟨s.afterError p f, [], errno p f⟩ := by
  obtain ⟨t, ht⟩ := Option.isSome_iff_exists.mp hq
  simp [dbQuery, ht, ho]

theorem dbQuery_ok {t : Trx} (hq : s.trx.next q = some t) (ho : o.query = none) :
    dbQuery p s q o = ⟨(s.exec t q).1, (s.exec t q).2, .none⟩ := by
  simp [dbQuery, hq, ho]

/-- Outside a transaction there is nothing to lose but the connection. -/
theorem afterError_fresh : Session.fresh.afterError p f = .fresh := by
  simp [Session.afterError]

end Sysbench.Scripting
