import Sysbench.Machinery.MachineInt

/-!
# Scripting/ResultSets — who owns a result set

A connection has one `db_result_set_t`, and every `db_query` and `db_execute` on it begins by
clearing it.  What `db_execute` gives a script is a pointer to it; so all the result sets a script
holds are the same one, and what storing or freeing one of them does is decided by the last call on
the connection.  `mysql_drv_free_results` leaves the pointer to the freed `MYSQL_RES` where it was.

The model is that of a Lua thread over the MySQL driver: a call may go wrong in memory, or leave a
`MYSQL_RES` that nothing points to.  A script is safe when it follows the **usage** of a result set:
execute, store, free, and no other call on the connection in between.
-/

namespace Sysbench.Scripting.Results

/-! ## The objects -/

/-- How a call goes wrong in memory. -/
inductive RsFault
  | nullPointer
  | useAfterFree
  | doubleFree
  deriving DecidableEq

/-- What a connection keeps: `statement` and `ptr` of its `rs`, and whether rows are still to be
fetched from the server. -/
structure DbConn where
  statement : Option ℕ
  ptr : Option ℕ
  pending : Bool

/-- A prepared statement: `emulated`, the connection it is of, and whether it is closed. -/
structure LuaStmt where
  emulated : Bool
  conn : ℕ
  closed : Bool

/-- `sb_lua_db_rs_t`: the connection whose `rs` it points to, or `NULL` once it is freed. -/
structure LuaRs where
  conn : ℕ
  freed : Bool

/-- A Lua thread: `ctxt->con`, the connections that are not freed, the statements and result sets of
the script, and the `MYSQL_RES` that are not freed. -/
structure LuaDb where
  con : Option ℕ
  conns : ℕ → Option DbConn
  nconns : ℕ
  stmts : ℕ → Option LuaStmt
  nstmts : ℕ
  rss : ℕ → Option LuaRs
  nrss : ℕ
  live : List ℕ
  next : ℕ

/-- What the server answers: whether the statement succeeds, and whether it has rows. -/
structure Answer where
  ok : Bool
  rows : Bool

/-- The calls of a script.  A `db_prepare` that fails leaves nothing behind. -/
inductive RsCall
  | connect
  | disconnect
  | query (a : Answer)
  | bulkInsert (a : Answer)
  | prepare (emulated : Bool)
  | execute (stmt : ℕ) (a : Answer)
  | storeResults (rs : ℕ)
  | freeResults (rs : ℕ)
  | close (stmt : ℕ)

/-- A thread that has done nothing yet. -/
def LuaDb.start : LuaDb := ⟨none, fun _ => none, 0, fun _ => none, 0, fun _ => none, 0, [], 0⟩

/-! ## The driver -/

/-- Whether the result set is that of a statement prepared at the server; to find out, the driver
reads the statement. -/
def serverSide (db : LuaDb) (c : DbConn) : Except RsFault Bool :=
  match c.statement.bind db.stmts with
  | none => .ok false
  | some stmt => if stmt.closed then .error .useAfterFree else .ok !stmt.emulated

/-- `mysql_drv_store_results` on the `rs` of connection `j`. -/
def mysqlDrvStoreResults (db : LuaDb) (j : ℕ) (c : DbConn) : Except RsFault LuaDb := do
  if ← serverSide db c then return db
  else if c.pending then
    return { db with
      conns := Function.update db.conns j (some { c with ptr := some db.next, pending := false })
      live := db.next :: db.live
      next := db.next + 1 }
  else return db

/-- `mysql_drv_free_results`. -/
def mysqlDrvFreeResults (db : LuaDb) (c : DbConn) : Except RsFault LuaDb := do
  if ← serverSide db c then return db
  else
    match c.ptr with
    | none => return db
    | some r =>
      if r ∈ db.live then return { db with live := db.live.erase r } else .error .doubleFree

/-! ## The calls -/

/-- `sb_lua_db_connect`. -/
def sbLuaDbConnect (db : LuaDb) : LuaDb :=
  { db with
    con := some db.nconns
    conns := Function.update db.conns db.nconns (some ⟨none, none, false⟩)
    nconns := db.nconns + 1 }

/-- `sb_lua_db_disconnect`. -/
def sbLuaDbDisconnect (db : LuaDb) : LuaDb :=
  match db.con with
  | none => db
  | some j => { db with con := none, conns := Function.update db.conns j none }

/-- `db_query` on connection `j`: the result set is cleared, and then is that of the query. -/
def rsOfQuery (db : LuaDb) (j : ℕ) (a : Answer) : LuaDb :=
  { db with conns := Function.update db.conns j (some ⟨none, none, a.ok && a.rows⟩) }

/-- `sb_lua_db_query`: what comes back is stored and freed. -/
def sbLuaDbQuery (db : LuaDb) (a : Answer) : Except RsFault LuaDb :=
  let db := if db.con = none then sbLuaDbConnect db else db
  match db.con with
  | none => .ok db
  | some j =>
    let db := rsOfQuery db j a
    if a.ok then do
      let db ← mysqlDrvStoreResults db j ⟨none, none, a.rows⟩
      match db.conns j with
      | none => .error .useAfterFree
      | some c => mysqlDrvFreeResults db c
    else .ok db

/-- `db_bulk_do_insert`: the result set is not looked at. -/
def dbBulkDoInsert (db : LuaDb) (a : Answer) : LuaDb :=
  match db.con with
  | none => db
  | some j => rsOfQuery db j a

/-- `sb_lua_db_prepare`. -/
def sbLuaDbPrepare (db : LuaDb) (emulated : Bool) : LuaDb :=
  let db := if db.con = none then sbLuaDbConnect db else db
  match db.con with
  | none => db
  | some j =>
    { db with
      stmts := Function.update db.stmts db.nstmts (some ⟨emulated, j, false⟩)
      nstmts := db.nstmts + 1 }

/-- `sb_lua_db_execute`, by way of `db_execute`: the result set is cleared, and is that of the
statement also where the statement fails. -/
def sbLuaDbExecute (db : LuaDb) (i : ℕ) (a : Answer) : Except RsFault LuaDb :=
  match db.con, db.stmts i with
  | some _, some stmt =>
    if stmt.closed || (db.conns stmt.conn).isNone then .error .useAfterFree
    else
      let rs : DbConn := ⟨some i, none, a.ok && stmt.emulated && a.rows⟩
      let db := { db with conns := Function.update db.conns stmt.conn (some rs) }
      if a.ok then
        .ok { db with
          rss := Function.update db.rss db.nrss (some ⟨stmt.conn, false⟩)
          nrss := db.nrss + 1 }
      else .ok db
  -- `CHECK_CONNECTION` and `luaL_checkudata` raise an error of the script
  | _, _ => .ok db

/-- The `db_result_set_t` a result set of the script points to. -/
def LuaDb.pointee (db : LuaDb) (rs : LuaRs) : Except RsFault DbConn :=
  if rs.freed then .error .nullPointer
  else
    match db.conns rs.conn with
    | none => .error .useAfterFree
    | some c => .ok c

/-- `sb_lua_db_store_results`. -/
def sbLuaDbStoreResults (db : LuaDb) (r : ℕ) : Except RsFault LuaDb :=
  match db.con, db.rss r with
  | some _, some rs => do
    let c ← db.pointee rs
    mysqlDrvStoreResults db rs.conn c
  | _, _ => .ok db

/-- `sb_lua_db_free_results`. -/
def sbLuaDbFreeResults (db : LuaDb) (r : ℕ) : Except RsFault LuaDb :=
  match db.con, db.rss r with
  | some _, some rs => do
    let c ← db.pointee rs
    let db ← mysqlDrvFreeResults db c
    return { db with rss := Function.update db.rss r (some { rs with freed := true }) }
  | _, _ => .ok db

/-- `sb_lua_db_close`. -/
def sbLuaDbClose (db : LuaDb) (i : ℕ) : Except RsFault LuaDb :=
  match db.con, db.stmts i with
  | some _, some stmt =>
    if stmt.closed || (db.conns stmt.conn).isNone then .error .useAfterFree
    else .ok { db with stmts := Function.update db.stmts i (some { stmt with closed := true }) }
  | _, _ => .ok db

/-- One call of a script. -/
def rsCall (db : LuaDb) : RsCall → Except RsFault LuaDb
  | .connect => .ok (sbLuaDbConnect db)
  | .disconnect => .ok (sbLuaDbDisconnect db)
  | .query a => sbLuaDbQuery db a
  | .bulkInsert a => .ok (dbBulkDoInsert db a)
  | .prepare emulated => .ok (sbLuaDbPrepare db emulated)
  | .execute i a => sbLuaDbExecute db i a
  | .storeResults r => sbLuaDbStoreResults db r
  | .freeResults r => sbLuaDbFreeResults db r
  | .close i => sbLuaDbClose db i

/-- The calls of a script, up to the first that goes wrong. -/
def rsCalls (db : LuaDb) (calls : List RsCall) : Except RsFault LuaDb := calls.foldlM rsCall db

/-! ## The usage of a result set -/

/-- What a script has to do with a result set: nothing, store it, or free it. -/
inductive Held
  | nothing
  | executed (rs stmt : ℕ)
  | stored (rs stmt : ℕ)
  deriving DecidableEq

/-- What a script that follows the usage knows of its objects. -/
structure Usage where
  isOpen : ℕ → Bool
  nstmts : ℕ
  nrss : ℕ
  held : Held

namespace Held

/-- A `MYSQL_RES` may have to be freed. -/
def owes : Held → Bool
  | stored _ _ => true
  | _ => false

/-- The statement the result set is of. -/
def stmt : Held → Option ℕ
  | nothing => none
  | executed _ i | stored _ i => some i

end Held

/-- **The usage**: a result set is stored at most once and then freed, before the connection is used
for anything else and before its statement is closed. -/
def useCall (u : Usage) : RsCall → Option Usage
  | .connect | .disconnect => none
  | .query _ | .bulkInsert _ => if u.held.owes then none else some { u with held := .nothing }
  | .prepare _ =>
    some { u with isOpen := Function.update u.isOpen u.nstmts true, nstmts := u.nstmts + 1 }
  | .execute i a =>
    if u.isOpen i && !u.held.owes then
      if a.ok then some { u with held := .executed u.nrss i, nrss := u.nrss + 1 }
      else some { u with held := .nothing }
    else none
  | .storeResults r =>
    match u.held with
    | .executed r' i => if r = r' then some { u with held := .stored r i } else none
    | _ => none
  | .freeResults r =>
    match u.held with
    | .executed r' _ | .stored r' _ => if r = r' then some { u with held := .nothing } else none
    | .nothing => none
  | .close i =>
    if u.isOpen i && u.held.stmt ≠ some i then
      some { u with isOpen := Function.update u.isOpen i false }
    else none

/-- The calls of a script that follows the usage. -/
def useCalls (u : Usage) (calls : List RsCall) : Option Usage := calls.foldlM useCall u

/-- A connection, and nothing on it. -/
def Usage.start : Usage := ⟨fun _ => false, 0, 0, .nothing⟩

/-- What is behind the result set a script holds: its statement is open, it points to the `rs` of
the connection, and what is live is what it has stored. -/
def Held.Backed (db : LuaDb) (c : DbConn) : Held → Prop
  | .nothing => db.live = []
  | .executed r i =>
    db.rss r = some ⟨0, false⟩ ∧ c.statement = some i ∧ c.ptr = none ∧ db.live = []
  | .stored r i =>
    db.rss r = some ⟨0, false⟩ ∧ c.statement = some i ∧ (c.ptr = none ∧ db.live = [] ∨
      ∃ m, c.ptr = some m ∧ db.live = [m] ∧ ∃ stmt, db.stmts i = some stmt ∧ stmt.emulated = true)

/-- **The thread is as the script takes it to be.** -/
structure Matches (u : Usage) (db : LuaDb) : Prop where
  con : db.con = some 0
  nstmts : db.nstmts = u.nstmts
  nrss : db.nrss = u.nrss
  opened : ∀ i, u.isOpen i = true → i < u.nstmts ∧
    ∃ stmt, db.stmts i = some stmt ∧ stmt.conn = 0 ∧ stmt.closed = false
  heldOpen : ∀ i, u.held.stmt = some i → u.isOpen i = true
  backed : ∃ c, db.conns 0 = some c ∧ u.held.Backed db c

theorem matches_start : Matches .start (sbLuaDbConnect .start) where
  con := rfl
  nstmts := rfl
  nrss := rfl
  opened := by simp [Usage.start]
  heldOpen := by simp [Usage.start, Held.stmt]
  backed := ⟨⟨none, none, false⟩, rfl, rfl⟩

/-! ## One call that follows the usage -/

section Steps

variable {u u' : Usage} {db db' : LuaDb} {c : DbConn}

/-- **A query leaves no `MYSQL_RES` behind, but a pointer to the one it had.** -/
theorem sbLuaDbQuery_eq {j : ℕ} (hcon : db.con = some j) (a : Answer) :
    sbLuaDbQuery db a = .ok { db with
      conns := Function.update db.conns j
        (some ⟨none, if a.ok && a.rows then some db.next else none, false⟩)
      next := if a.ok && a.rows then db.next + 1 else db.next } := by
  obtain ⟨ok, rows⟩ := a
  cases ok <;> cases rows <;>
    simp [sbLuaDbQuery, hcon, rsOfQuery, mysqlDrvStoreResults, mysqlDrvFreeResults, serverSide,
      bind, Except.bind, pure, Except.pure]

theorem serverSide_of_opened {i : ℕ} {stmt : LuaStmt} (hc : c.statement = some i)
    (hstmt : db.stmts i = some stmt) (hclosed : stmt.closed = false) :
    serverSide db c = .ok !stmt.emulated := by
  simp [serverSide, hc, hstmt, hclosed]

/-- Nothing is live unless something is to be freed. -/
theorem Held.Backed.live_eq_nil {h : Held} (hb : h.Backed db c) (howes : h.owes = false) :
    db.live = [] := by
  cases h with
  | nothing => exact hb
  | executed r i => exact hb.2.2.2
  | stored r i => cases howes

/-- After a call that clears the result set of the connection, the script holds none. -/
theorem Matches.cleared (hm : Matches u db) (howes : u.held.owes = false)
    (hc : (db'.conns 0).isSome) (hcon : db'.con = db.con) (hstmts : db'.stmts = db.stmts)
    (hns : db'.nstmts = db.nstmts) (hnr : db'.nrss = db.nrss) (hlive : db'.live = db.live) :
    Matches { u with held := .nothing } db' where
  con := hcon.trans hm.con
  nstmts := hns.trans hm.nstmts
  nrss := hnr.trans hm.nrss
  opened := hstmts ▸ hm.opened
  heldOpen := by simp [Held.stmt]
  backed := by
    obtain ⟨c, -, hb⟩ := hm.backed
    obtain ⟨c', hc'⟩ := Option.isSome_iff_exists.mp hc
    exact ⟨c', hc', hlive.trans (hb.live_eq_nil howes)⟩

theorem rsCall_query (hm : Matches u db) (howes : u.held.owes = false) (a : Answer) :
    ∃ db', rsCall db (.query a) = .ok db' ∧ Matches { u with held := .nothing } db' := by
  refine ⟨_, sbLuaDbQuery_eq hm.con a, ?_⟩
  exact hm.cleared howes (by simp) rfl rfl rfl rfl rfl

theorem rsCall_bulkInsert (hm : Matches u db) (howes : u.held.owes = false) (a : Answer) :
    ∃ db', rsCall db (.bulkInsert a) = .ok db' ∧ Matches { u with held := .nothing } db' := by
  refine ⟨rsOfQuery db 0 a, by simp [rsCall, dbBulkDoInsert, hm.con], ?_⟩
  exact hm.cleared howes (by simp [rsOfQuery]) rfl rfl rfl rfl rfl

/-- A change of the statements that keeps those that are open keeps what is held. -/
theorem Held.Backed.congr {h : Held} (hb : h.Backed db c) (hlive : db'.live = db.live)
    (hrss : db'.rss = db.rss)
    (hstmts : ∀ i stmt, h.stmt = some i → db.stmts i = some stmt → db'.stmts i = some stmt) :
    h.Backed db' c := by
  cases h with
  | nothing => exact hlive.trans hb
  | executed r i =>
    obtain ⟨hr, hi, hp, hl⟩ := hb
    exact ⟨hrss ▸ hr, hi, hp, hlive.trans hl⟩
  | stored r i =>
    obtain ⟨hr, hi, ⟨hp, hl⟩ | ⟨m, hp, hl, stmt, hs, he⟩⟩ := hb
    · exact ⟨hrss ▸ hr, hi, Or.inl ⟨hp, hlive.trans hl⟩⟩
    · exact ⟨hrss ▸ hr, hi, Or.inr ⟨m, hp, hlive.trans hl, stmt, hstmts i stmt rfl hs, he⟩⟩

theorem rsCall_prepare (hm : Matches u db) (emulated : Bool) :
    ∃ db', rsCall db (.prepare emulated) = .ok db' ∧
      Matches { u with
        isOpen := Function.update u.isOpen u.nstmts true
        nstmts := u.nstmts + 1 } db' := by
  have hcall : rsCall db (.prepare emulated) = .ok { db with
      stmts := Function.update db.stmts u.nstmts (some ⟨emulated, 0, false⟩)
      nstmts := u.nstmts + 1 } := by
    simp [rsCall, sbLuaDbPrepare, hm.con, hm.nstmts]
  obtain ⟨c, hc, hb⟩ := hm.backed
  have hne : ∀ i, u.isOpen i = true → i ≠ u.nstmts := fun i hi => (hm.opened i hi).1.ne
  refine ⟨_, hcall, hm.con, rfl, hm.nrss, fun i hi => ?_, fun i hi => ?_, c, hc, ?_⟩
  · rcases eq_or_ne i u.nstmts with rfl | hi'
    · exact ⟨Nat.lt_succ_self _, ⟨emulated, 0, false⟩, Function.update_self .., rfl, rfl⟩
    · obtain ⟨hlt, stmt, hstmt, hgood⟩ := hm.opened i (by simpa [hi'] using hi)
      exact ⟨hlt.trans (Nat.lt_succ_self _), stmt,
        (Function.update_of_ne hi' _ _).trans hstmt, hgood⟩
  · have hopen := hm.heldOpen i hi
    simpa [hne i hopen] using hopen
  · refine hb.congr rfl rfl fun i stmt hi hstmt => ?_
    exact (Function.update_of_ne (hne i (hm.heldOpen i hi)) _ _).trans hstmt

theorem rsCall_close (hm : Matches u db) {i : ℕ} (hopen : u.isOpen i = true)
    (hheld : u.held.stmt ≠ some i) :
    ∃ db', rsCall db (.close i) = .ok db' ∧
      Matches { u with isOpen := Function.update u.isOpen i false } db' := by
  obtain ⟨hlt, stmt, hstmt, hconn, hclosed⟩ := hm.opened i hopen
  obtain ⟨c, hc, hb⟩ := hm.backed
  have hcall : rsCall db (.close i) = .ok { db with
      stmts := Function.update db.stmts i (some { stmt with closed := true }) } := by
    simp [rsCall, sbLuaDbClose, hm.con, hstmt, hclosed, hconn, hc]
  refine ⟨_, hcall, hm.con, hm.nstmts, hm.nrss, fun j hj => ?_, fun j hj => ?_, c, hc, ?_⟩
  · rcases eq_or_ne j i with rfl | hne
    · simp at hj
    · obtain ⟨hlt, stmt', hstmt', hgood⟩ := hm.opened j (by simpa [hne] using hj)
      exact ⟨hlt, stmt', (Function.update_of_ne hne _ _).trans hstmt', hgood⟩
  · have hne : j ≠ i := fun h => hheld (h ▸ hj)
    simpa [hne] using hm.heldOpen j hj
  · refine hb.congr rfl rfl fun j stmt' hj hstmt' => ?_
    have hne : j ≠ i := fun h => hheld (h ▸ hj)
    exact (Function.update_of_ne hne _ _).trans hstmt'

theorem rsCall_execute (hm : Matches u db) {i : ℕ} (hopen : u.isOpen i = true)
    (howes : u.held.owes = false) (a : Answer) :
    ∃ db', rsCall db (.execute i a) = .ok db' ∧
      Matches (if a.ok then { u with held := .executed u.nrss i, nrss := u.nrss + 1 }
        else { u with held := .nothing }) db' := by
  obtain ⟨hlt, stmt, hstmt, hconn, hclosed⟩ := hm.opened i hopen
  obtain ⟨c, hc, hb⟩ := hm.backed
  have hlive := hb.live_eq_nil howes
  cases hok : a.ok with
  | false =>
    have hcall : rsCall db (.execute i a) = .ok { db with
        conns := Function.update db.conns 0 (some ⟨some i, none, false⟩) } := by
      simp [rsCall, sbLuaDbExecute, hm.con, hstmt, hclosed, hconn, hc, hok]
    exact ⟨_, hcall, hm.cleared howes (by simp) rfl rfl rfl rfl rfl⟩
  | true =>
    have hcall : rsCall db (.execute i a) = .ok { db with
        conns := Function.update db.conns 0 (some ⟨some i, none, stmt.emulated && a.rows⟩)
        rss := Function.update db.rss u.nrss (some ⟨0, false⟩)
        nrss := u.nrss + 1 } := by
      simp [rsCall, sbLuaDbExecute, hm.con, hstmt, hclosed, hconn, hc, hok, hm.nrss]
    refine ⟨_, hcall, hm.con, hm.nstmts, rfl, hm.opened, fun j hj => ?_,
      ⟨some i, none, stmt.emulated && a.rows⟩, by simp, by simp, rfl, rfl, hlive⟩
    exact Option.some.inj hj ▸ hopen

theorem rsCall_storeResults (hm : Matches u db) {r i : ℕ} (hheld : u.held = .executed r i) :
    ∃ db', rsCall db (.storeResults r) = .ok db' ∧
      Matches { u with held := .stored r i } db' := by
  obtain ⟨c, hc, hb⟩ := hm.backed
  rw [hheld] at hb
  obtain ⟨hr, hi, hp, hl⟩ := hb
  have hopen := hm.heldOpen i (by rw [hheld]; rfl)
  obtain ⟨hlt, stmt, hstmt, hconn, hclosed⟩ := hm.opened i hopen
  have hside := serverSide_of_opened hi hstmt hclosed
  have hheldOpen : ∀ j, (Held.stored r i).stmt = some j → u.isOpen j = true :=
    fun j hj => Option.some.inj hj ▸ hopen
  -- rows are fetched into a `MYSQL_RES` for an emulated statement that has any
  by_cases hrows : stmt.emulated = true ∧ c.pending = true
  · have hcall : rsCall db (.storeResults r) = .ok { db with
        conns := Function.update db.conns 0 (some { c with ptr := some db.next, pending := false })
        live := db.next :: db.live
        next := db.next + 1 } := by
      simp [rsCall, sbLuaDbStoreResults, hm.con, hr, LuaDb.pointee, hc, mysqlDrvStoreResults, hside,
        hrows.1, hrows.2, bind, Except.bind, pure, Except.pure]
    refine ⟨_, hcall, hm.con, hm.nstmts, hm.nrss, hm.opened, hheldOpen,
      { c with ptr := some db.next, pending := false }, by simp, hr, hi, Or.inr ?_⟩
    exact ⟨db.next, rfl, by simp [hl], stmt, hstmt, hrows.1⟩
  · have hcall : rsCall db (.storeResults r) = .ok db := by
      have : stmt.emulated = true → c.pending = false := by simpa using hrows
      cases he : stmt.emulated <;>
        simp_all [rsCall, sbLuaDbStoreResults, hm.con, LuaDb.pointee, mysqlDrvStoreResults, bind,
          Except.bind, pure, Except.pure]
    exact ⟨_, hcall, hm.con, hm.nstmts, hm.nrss, hm.opened, hheldOpen, c, hc, hr, hi,
      Or.inl ⟨hp, hl⟩⟩

/-- **Freeing what is held leaves nothing live.** -/
theorem rsCall_freeResults (hm : Matches u db) {r : ℕ}
    (hheld : ∃ i, u.held = .executed r i ∨ u.held = .stored r i) :
    ∃ db', rsCall db (.freeResults r) = .ok db' ∧ Matches { u with held := .nothing } db' := by
  obtain ⟨c, hc, hb⟩ := hm.backed
  obtain ⟨i, hi⟩ := hheld
  have hopen : u.isOpen i = true := hm.heldOpen i (by rcases hi with h | h <;> rw [h] <;> rfl)
  obtain ⟨hlt, stmt, hstmt, hconn, hclosed⟩ := hm.opened i hopen
  obtain ⟨hr, hci, hptr⟩ : db.rss r = some ⟨0, false⟩ ∧ c.statement = some i ∧
      (c.ptr = none ∧ db.live = [] ∨ ∃ m, c.ptr = some m ∧ db.live = [m] ∧
        stmt.emulated = true) := by
    rcases hi with h | h <;> rw [h] at hb
    · exact ⟨hb.1, hb.2.1, Or.inl hb.2.2⟩
    · obtain ⟨hr, hci, hfree | ⟨m, hp, hl, stmt', hstmt', he⟩⟩ := hb
      · exact ⟨hr, hci, Or.inl hfree⟩
      · obtain rfl := Option.some.inj (hstmt'.symm.trans hstmt)
        exact ⟨hr, hci, Or.inr ⟨m, hp, hl, he⟩⟩
  have hside := serverSide_of_opened hci hstmt hclosed
  have hcall : rsCall db (.freeResults r) = .ok { db with
      live := []
      rss := Function.update db.rss r (some ⟨0, true⟩) } := by
    rcases hptr with ⟨hp, hl⟩ | ⟨m, hp, hl, he⟩
    · cases he : stmt.emulated <;>
        simp [rsCall, sbLuaDbFreeResults, hm.con, hr, LuaDb.pointee, hc, mysqlDrvFreeResults, hside,
          he, hp, hl, bind, Except.bind, pure, Except.pure]
    · simp [rsCall, sbLuaDbFreeResults, hm.con, hr, LuaDb.pointee, hc, mysqlDrvFreeResults, hside,
        he, hp, hl, bind, Except.bind, pure, Except.pure]
  exact ⟨_, hcall, hm.con, hm.nstmts, hm.nrss, hm.opened, by simp [Held.stmt], c, hc, rfl⟩

/-- **A call that follows the usage goes well.** -/
theorem rsCall_of_useCall {call : RsCall} (hm : Matches u db) (hu : useCall u call = some u') :
    ∃ db', rsCall db call = .ok db' ∧ Matches u' db' := by
  cases call with
  | connect | disconnect => cases hu
  | query a =>
    simp only [useCall] at hu
    split_ifs at hu with howes
    exact Option.some.inj hu ▸ rsCall_query hm (by simpa using howes) a
  | bulkInsert a =>
    simp only [useCall] at hu
    split_ifs at hu with howes
    exact Option.some.inj hu ▸ rsCall_bulkInsert hm (by simpa using howes) a
  | prepare emulated => exact Option.some.inj hu ▸ rsCall_prepare hm emulated
  | execute i a =>
    simp only [useCall, ← apply_ite some] at hu
    split at hu
    next hc =>
      obtain ⟨hopen, howes⟩ := Bool.and_eq_true_iff.mp hc
      exact Option.some.inj hu ▸ rsCall_execute hm hopen (by simpa using howes) a
    next => cases hu
  | storeResults r =>
    simp only [useCall] at hu
    split at hu
    next r' i hheld =>
      split_ifs at hu with hr
      subst hr
      exact Option.some.inj hu ▸ rsCall_storeResults hm hheld
    next => cases hu
  | freeResults r =>
    simp only [useCall] at hu
    split at hu
    next r' i hheld =>
      split_ifs at hu with hr
      subst hr
      exact Option.some.inj hu ▸ rsCall_freeResults hm ⟨i, Or.inl hheld⟩
    next r' i hheld =>
      split_ifs at hu with hr
      subst hr
      exact Option.some.inj hu ▸ rsCall_freeResults hm ⟨i, Or.inr hheld⟩
    next => cases hu
  | close i =>
    simp only [useCall] at hu
    split_ifs at hu with hc
    obtain ⟨hopen, hheld⟩ := Bool.and_eq_true_iff.mp hc
    exact Option.some.inj hu ▸ rsCall_close hm hopen (by simpa using hheld)

/-- **A script that follows the usage goes well.** -/
theorem rsCalls_of_useCalls {calls : List RsCall} (hm : Matches u db)
    (hu : useCalls u calls = some u') : ∃ db', rsCalls db calls = .ok db' ∧ Matches u' db' := by
  induction calls generalizing u db with
  | nil =>
    obtain rfl := Option.some.inj hu
    exact ⟨db, rfl, hm⟩
  | cons call calls ih =>
    obtain ⟨v, hv, hu⟩ := Option.bind_eq_some_iff.mp hu
    obtain ⟨db₁, hcall, hm₁⟩ := rsCall_of_useCall hm hv
    obtain ⟨db', hcalls, hm'⟩ := ih hm₁ hu
    refine ⟨db', ?_, hm'⟩
    rw [rsCalls, List.foldlM_cons, hcall]
    exact hcalls

end Steps

/-! ## Whole scripts -/

/-- **A script that follows the usage is safe in memory**: no call goes wrong, and once it holds no
stored result set, every `MYSQL_RES` has been freed. -/
theorem usage_memory_safe {calls : List RsCall} {u : Usage}
    (hu : useCalls .start calls = some u) :
    ∃ db, rsCalls (sbLuaDbConnect .start) calls = .ok db ∧
      (u.held.owes = false → db.live = []) := by
  obtain ⟨db, hcalls, hm⟩ := rsCalls_of_useCalls matches_start hu
  obtain ⟨c, -, hb⟩ := hm.backed
  exact ⟨db, hcalls, hb.live_eq_nil⟩

/-- A result set is stored and freed, and then comes a query. -/
theorem usage_memory_safe_query :
    ∃ db, rsCalls (sbLuaDbConnect .start) [.prepare true, .execute 0 ⟨true, true⟩,
      .storeResults 0, .freeResults 0, .query ⟨true, true⟩] = .ok db ∧ db.live = [] := by
  have huse : useCalls .start [.prepare true, .execute 0 ⟨true, true⟩, .storeResults 0,
      .freeResults 0, .query ⟨true, true⟩] = some _ := rfl
  obtain ⟨db, hcalls, hlive⟩ := usage_memory_safe huse
  exact ⟨db, hcalls, hlive rfl⟩

/-- The events of `select_random_points.lua` and `select_random_ranges.lua`, from the result set `n`
on: the statement is executed, and what comes back is stored and freed.  An error leaves the
event. -/
def selectRandomEvents : ℕ → List Answer → List RsCall
  | _, [] => []
  | n, a :: as =>
    if a.ok then
      .execute 0 a :: .storeResults n :: .freeResults n :: selectRandomEvents (n + 1) as
    else .execute 0 a :: selectRandomEvents n as

/-- A run of one of these scripts: `thread_init`, and the events. -/
def selectRandom (emulated : Bool) (as : List Answer) : List RsCall :=
  .prepare emulated :: selectRandomEvents 0 as

theorem useCalls_selectRandomEvents (as : List Answer) {u : Usage} (hopen : u.isOpen 0 = true)
    (hheld : u.held = .nothing) :
    ∃ u', useCalls u (selectRandomEvents u.nrss as) = some u' ∧ u'.held = .nothing := by
  induction as generalizing u with
  | nil => exact ⟨u, rfl, hheld⟩
  | cons a as ih =>
    rw [selectRandomEvents]
    cases hok : a.ok with
    | true =>
      obtain ⟨u', hu', hend⟩ := ih (u := { u with held := .nothing, nrss := u.nrss + 1 }) hopen rfl
      refine ⟨u', ?_, hend⟩
      simpa [useCalls, useCall, hopen, hheld, hok, Held.owes] using hu'
    | false =>
      obtain ⟨u', hu', hend⟩ := ih (u := { u with held := .nothing }) hopen rfl
      refine ⟨u', ?_, hend⟩
      simpa [useCalls, useCall, hopen, hheld, hok, Held.owes] using hu'

/-- **The scripts with prepared statements are safe in memory**, whatever the server answers: no
call goes wrong, and after each event nothing is left. -/
theorem selectRandom_memory_safe (emulated : Bool) (as : List Answer) :
    ∃ db, rsCalls (sbLuaDbConnect .start) (selectRandom emulated as) = .ok db ∧ db.live = [] := by
  obtain ⟨u, hu, hheld⟩ := useCalls_selectRandomEvents as
    (u := ⟨Function.update (fun _ => false) 0 true, 1, 0, .nothing⟩) rfl rfl
  have huse : useCalls .start (selectRandom emulated as) = some u := hu
  obtain ⟨db, hcalls, hm⟩ := rsCalls_of_useCalls matches_start huse
  obtain ⟨c, -, hb⟩ := hm.backed
  exact ⟨db, hcalls, hb.live_eq_nil (by rw [hheld]; rfl)⟩

/-! ## A result set that is not the last one -/

section Stale

variable {db db' : LuaDb} {c : DbConn} {j r : ℕ} {a : Answer}

end Stale

end Sysbench.Scripting.Results
