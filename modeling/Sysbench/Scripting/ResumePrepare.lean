import Sysbench.Scripting.ParallelPrepare
import Sysbench.Scripting.Session

/-!
# Scripting/ResumePrepare — where `create_insert` goes on with a table that has rows already

`create_insert` of `common.lua` asks for the largest id of a table, and inserts the rows from there
up to the table size.  The answer has to come back through `db_query`, which is a C function: what
Lua gets of it are the values that it pushes and counts in what it returns.  `sb_lua_db_query`
stores the rows, frees them and returns 0, so the script gets `nil`, takes the table to be empty and
starts at 1 (`nrowsOf_eq_zero`).
-/

namespace Sysbench.Scripting

/-! ## Values that cross the binding -/

/-- The Lua values the script looks at. -/
inductive LuaValue
  | nil
  | number (x : ℤ)
  | text (s : String)
  deriving DecidableEq, Repr

/-- Why a script is left: an error raised by `lua_error`, or a call of something that is not a
function. -/
inductive LuaError
  | raised (errno : DbError)
  | notCallable (what : String)
  deriving DecidableEq, Repr

/-- What a C function hands back: the values it has pushed, of which the last `count` are its
results. -/
def cResults (pushed : List LuaValue) (count : ℕ) : List LuaValue :=
  pushed.drop (pushed.length - count)

/-- The value of an assignment from a call: the first result, or `nil`. -/
def firstResult (results : List LuaValue) : LuaValue := results.headD .nil

/-- The functions `sb_lua_new_state` exports. -/
def exportedFunctions : List String :=
  ["sb_rand", "sb_rand_uniq", "sb_rnd", "sb_rand_str", "sb_rand_uniform", "sb_rand_gaussian",
    "sb_rand_special", "db_connect", "db_disconnect", "db_query", "db_query_retry",
    "db_bulk_insert_init", "db_bulk_insert_next", "db_bulk_insert_done", "db_prepare",
    "db_bind_param", "db_bind_result", "db_execute", "db_close", "db_store_results",
    "db_free_results"]

/-- A table of rows, as the server sends them: each column by name. -/
abbrev RowSet : Type := List (List (String × Option ℕ))

/-- What the server does with a statement: it fails, or answers with rows. -/
abbrev Server : Type := String → Except DbError RowSet

/-- `db_query`, up to the error that is raised. -/
def serverQuery (server : Server) (query : String) : Except LuaError RowSet :=
  match server query with
  | .ok rs => .ok rs
  | .error errno => .error (.raised errno)

/-- `sb_lua_db_query`: the rows are stored and freed, nothing is pushed. -/
def sbLuaDbQueryResults (server : Server) (query : String) : Except LuaError (List LuaValue) := do
  let _rs ← serverQuery server query
  return cResults [] 0

/-- The loop of `sb_lua_db_query_retry`, with `n` attempts left; the server may answer each in its
own way. -/
def queryRetry (attempt : ℕ → Server) (query : String) : ℕ → ℕ → Except LuaError RowSet
  | 0, i => serverQuery (attempt i) query
  | n + 1, i =>
    match attempt i query with
    | .ok rs => .ok rs
    | .error _ => queryRetry attempt query n (i + 1)

/-- `sb_lua_db_query_retry`: five attempts. -/
def sbLuaDbQueryRetry (attempt : ℕ → Server) (query : String) :
    Except LuaError (List LuaValue) := do
  let _rs ← queryRetry attempt query 4 0
  return cResults [] 0

/-! ## The script -/

/-- The names of the drivers, as `db_driver` has them. -/
inductive DriverName
  | mysql
  | attachsql
  | pgsql
  | drizzle
  | other (name : String)
  deriving DecidableEq, Repr

/-- `create_insert` has a `CREATE TABLE` for the driver. -/
def DriverName.known : DriverName → Bool
  | .other _ => false
  | _ => true

/-- The globals of the script that `create_insert` reads. -/
structure PrepareVars where
  dbDriver : DriverName
  oltpSecondary : Bool
  oltpAutoInc : Bool
  oltpTableSize : ℕ
  mysqlTableEngine : String
  myisamMaxRows : String
  mysqlTableOptions : Option String

/-- What the script draws for row `j`: `sb_rand` and the two random strings. -/
structure RowDraws where
  k : ℕ
  cVal : String
  padVal : String

/-- `index_name`. -/
def PrepareVars.indexName (v : PrepareVars) : String :=
  if v.oltpSecondary then "KEY xid" else "PRIMARY KEY"

/-- `((oltp_auto_inc and "AUTO_INCREMENT") or "")`. -/
def PrepareVars.autoIncrement (v : PrepareVars) : String :=
  if v.oltpAutoInc then "AUTO_INCREMENT" else ""

/-- The columns that all tables end with. -/
def PrepareVars.lastColumns (v : PrepareVars) (int : String) : String :=
  ",\nk " ++ int ++ " DEFAULT '0' NOT NULL,\nc CHAR(120) DEFAULT '' NOT NULL,\n"
    ++ "pad CHAR(60) DEFAULT '' NOT NULL,\n" ++ v.indexName ++ " (id)\n) "

/-- The `CREATE TABLE` of each driver; `none` where the script knows none. -/
def createTableQuery (v : PrepareVars) (i : ℕ) : Option String :=
  match v.dbDriver with
  | .mysql | .attachsql =>
    some ("CREATE TABLE if not exists sbtest" ++ toString i ++ " (\nid INTEGER UNSIGNED NOT NULL "
      ++ v.autoIncrement ++ v.lastColumns "INTEGER UNSIGNED" ++ "/*! ENGINE = "
      ++ v.mysqlTableEngine ++ " MAX_ROWS = " ++ v.myisamMaxRows ++ " */ "
      ++ v.mysqlTableOptions.getD "")
  | .pgsql =>
    some ("CREATE TABLE if not exists sbtest" ++ toString i ++ " (\nid integer NOT NULL"
      ++ v.lastColumns "INTEGER")
  | .drizzle =>
    some ("CREATE TABLE if not exists sbtest (\nid INTEGER NOT NULL " ++ v.autoIncrement
      ++ v.lastColumns "INTEGER")
  | .other _ => none

/-- The query for the largest id. -/
def maxIdQuery (i : ℕ) : String := "select max(id) as nrows from sbtest" ++ toString i

/-- `db_fetch_row(rs)['nrows']`: there is no such function (`dbFetchRow_notMem_exported`), and the
call raises an error. -/
def fetchNrows (_rs : LuaValue) : Except LuaError ℕ := .error (.notCallable "db_fetch_row")

/-- `nrows`: what the script takes from the result of the query. -/
def nrowsOf (rs : LuaValue) : Except LuaError ℕ :=
  if rs ≠ .nil then fetchNrows rs else .ok 0

/-- A call of the bulk functions. -/
inductive BulkCall
  | init (query : String)
  | next (id : Option ℕ) (row : String)
  | done
  deriving DecidableEq, Repr

/-- The text the bulk insert starts with. -/
def bulkInsertQuery (v : PrepareVars) (i : ℕ) : String :=
  "INSERT INTO sbtest" ++ toString i ++ if v.oltpAutoInc then "(k, c, pad) VALUES"
    else "(id, k, c, pad) VALUES"

/-- The call for row `j`. -/
def bulkRow (v : PrepareVars) (draws : ℕ → RowDraws) (j : ℕ) : BulkCall :=
  let d := draws j
  if v.oltpAutoInc then
    .next none ("(" ++ toString d.k ++ ", '" ++ d.cVal ++ "', '" ++ d.padVal ++ "')")
  else
    .next (some j)
      ("(" ++ toString j ++ "," ++ toString d.k ++ ",'" ++ d.cVal ++ "', '" ++ d.padVal ++ "'  )")

/-- `create_insert`: the calls of the bulk functions, in order. -/
def createInsert (v : PrepareVars) (server : Server) (draws : ℕ → RowDraws) (i : ℕ) :
    Except LuaError (List BulkCall) :=
  match createTableQuery v i with
  | none => .ok []
  | some query => do
    let _ ← sbLuaDbQueryRetry (fun _ => server) query
    let results ← sbLuaDbQueryResults server (maxIdQuery i)
    let nrows ← nrowsOf (firstResult results)
    let rows := luaFor (v.oltpTableSize + 1) (nrows + 1) v.oltpTableSize 1
    return .init (bulkInsertQuery v i) :: (rows.map (bulkRow v draws) ++ [.done])

/-- The ids in the rows that are handed to the bulk inserter. -/
def rowIds (calls : List BulkCall) : List ℕ :=
  calls.filterMap fun call =>
    match call with
    | .next id _ => id
    | _ => none

/-- Table `i` at the server holds the ids `1..m`, and all statements succeed. -/
structure HoldsIds (server : Server) (i m : ℕ) : Prop where
  succeeds : ∀ query, ∃ rs, server query = .ok rs
  maxId : server (maxIdQuery i) = .ok [[("nrows", if m = 0 then none else some m)]]

/-- `create_insert` goes on where the table ends: it hands over each of the ids `m + 1..S` once, and
no others. -/
def Resumes (v : PrepareVars) (server : Server) (draws : ℕ → RowDraws) (i m : ℕ) : Prop :=
  ∃ calls, createInsert v server draws i = .ok calls ∧
    ∀ id, (rowIds calls).count id = if m < id ∧ id ≤ v.oltpTableSize then 1 else 0

/-! ## The answer is lost at the binding -/

/-- The fetch of a row that the script would use is not among the exported functions. -/
theorem dbFetchRow_notMem_exported : "db_fetch_row" ∉ exportedFunctions := by
  decide

/-- **No rows come back**: whatever the server answers, `db_query` gives the script `nil`, and the
script takes the table to be empty. -/
theorem nrowsOf_eq_zero {server : Server} {query : String} {results : List LuaValue}
    (h : sbLuaDbQueryResults server query = .ok results) :
    nrowsOf (firstResult results) = .ok 0 := by
  rw [sbLuaDbQueryResults] at h
  cases hs : serverQuery server query with
  | error e =>
    rw [hs] at h
    cases h
  | ok rs =>
    rw [hs] at h
    cases h
    rfl

theorem sbLuaDbQueryResults_ok {server : Server} {query : String} {rs : RowSet}
    (h : server query = .ok rs) : sbLuaDbQueryResults server query = .ok [] := by
  rw [sbLuaDbQueryResults, serverQuery, h]
  rfl

theorem sbLuaDbQueryRetry_ok {server : Server} {query : String} {rs : RowSet}
    (h : server query = .ok rs) : sbLuaDbQueryRetry (fun _ => server) query = .ok [] := by
  rw [sbLuaDbQueryRetry, queryRetry, h]
  rfl

/-! ## The rows that are handed over -/

theorem rowIds_bulkRows {v : PrepareVars} (hauto : v.oltpAutoInc = false) (draws : ℕ → RowDraws)
    (query : String) (rows : List ℕ) :
    rowIds (.init query :: (rows.map (bulkRow v draws) ++ [BulkCall.done])) = rows := by
  have hrow : ∀ j, bulkRow v draws j = .next (some j) ("(" ++ toString j ++ ","
      ++ toString (draws j).k ++ ",'" ++ (draws j).cVal ++ "', '" ++ (draws j).padVal
      ++ "'  )") := by
    intro j
    rw [bulkRow, hauto]
    rfl
  simp [rowIds, List.filterMap_map, hrow]

/-- With a driver it knows, `create_insert` always begins at 1. -/
theorem createInsert_known {v : PrepareVars} (hauto : v.oltpAutoInc = false) {server : Server}
    (hserver : ∀ query, ∃ rs, server query = .ok rs) (draws : ℕ → RowDraws) (i : ℕ)
    (hknown : v.dbDriver.known = true) :
    ∃ calls, createInsert v server draws i = .ok calls ∧
      rowIds calls = luaFor (v.oltpTableSize + 1) 1 v.oltpTableSize 1 := by
  obtain ⟨query, hquery⟩ : ∃ query, createTableQuery v i = some query := by
    rw [createTableQuery]
    cases hd : v.dbDriver <;> simp_all [DriverName.known]
  obtain ⟨_, hcreate⟩ := hserver query
  obtain ⟨_, hmax⟩ := hserver (maxIdQuery i)
  have hresults := sbLuaDbQueryResults_ok hmax
  have hnrows := nrowsOf_eq_zero hresults
  refine ⟨.init (bulkInsertQuery v i) :: ((luaFor (v.oltpTableSize + 1) 1 v.oltpTableSize 1).map
    (bulkRow v draws) ++ [BulkCall.done]), ?_, rowIds_bulkRows hauto draws _ _⟩
  rw [createInsert, hquery]
  simp only [sbLuaDbQueryRetry_ok hcreate, hresults, hnrows, bind, Except.bind, pure, Except.pure,
    zero_add]

/-- The loop from 1 hands over the ids `1..S`. -/
theorem count_luaFor_one (S id : ℕ) :
    (luaFor (S + 1) 1 S 1).count id = if 0 < id ∧ id ≤ S then 1 else 0 := by
  rw [count_luaFor one_pos _ (by omega)]
  simp only [one_dvd, and_true, Nat.succ_le_iff, and_comm (b := 0 < id)]

theorem createInsert_unknown {v : PrepareVars} (hknown : v.dbDriver.known = false)
    (server : Server) (draws : ℕ → RowDraws) (i : ℕ) :
    createInsert v server draws i = .ok [] := by
  rw [createInsert, createTableQuery]
  cases hd : v.dbDriver <;> simp_all [DriverName.known]

/-- Ids `a + 1..S` are those of `b + 1..S` only if the two begin at the same id. -/
theorem eq_of_window {a b S : ℕ} (ha : a ≤ S) (hb : b ≤ S)
    (h : ∀ id, (if a < id ∧ id ≤ S then 1 else 0) = if b < id ∧ id ≤ S then 1 else 0) : a = b := by
  rcases lt_trichotomy a b with hlt | heq | hgt
  · have := h b
    rw [if_pos ⟨hlt, hb⟩, if_neg (by omega)] at this
    omega
  · exact heq
  · have := h a
    rw [if_neg (by omega), if_pos ⟨hgt, ha⟩] at this
    omega

/-- **Preparing is resumed only from nothing**: `create_insert` goes on after the ids `1..m` exactly
if there are none; with a driver it does not know it hands over nothing, which is right for a full
table only. -/
theorem createInsert_resumes_iff {v : PrepareVars} (hauto : v.oltpAutoInc = false)
    {server : Server} {i m : ℕ} (hserver : HoldsIds server i m) (hm : m ≤ v.oltpTableSize)
    (draws : ℕ → RowDraws) :
    Resumes v server draws i m ↔ if v.dbDriver.known then m = 0 else m = v.oltpTableSize := by
  cases hknown : v.dbDriver.known with
  | true =>
    obtain ⟨calls, hcalls, hids⟩ := createInsert_known hauto hserver.succeeds draws i hknown
    have hcount : ∀ id, (rowIds calls).count id = if 0 < id ∧ id ≤ v.oltpTableSize then 1 else 0 :=
      fun id => hids ▸ count_luaFor_one _ id
    rw [if_pos rfl]
    constructor
    · rintro ⟨calls', hcalls', hcount'⟩
      cases hcalls.symm.trans hcalls'
      exact eq_of_window hm (Nat.zero_le _) fun id => (hcount' id).symm.trans (hcount id)
    · rintro rfl
      exact ⟨calls, hcalls, hcount⟩
  | false =>
    have hcalls := createInsert_unknown hknown server draws i
    rw [if_neg Bool.false_ne_true]
    constructor
    · rintro ⟨calls', hcalls', hcount'⟩
      cases hcalls.symm.trans hcalls'
      refine eq_of_window hm le_rfl fun id => (hcount' id).symm.trans ?_
      rw [if_neg (by omega)]
      rfl
    · rintro rfl
      refine ⟨[], hcalls, fun id => ?_⟩
      rw [if_neg (by omega)]
      rfl

/-- A server whose table `sbtest1` holds the ids `1..m`. -/
def filledServer (m : ℕ) : Server := fun query =>
  if query = maxIdQuery 1 then .ok [[("nrows", if m = 0 then none else some m)]] else .ok []

theorem filledServer_holdsIds (m : ℕ) : HoldsIds (filledServer m) 1 m where
  succeeds := by
    intro query
    by_cases hquery : query = maxIdQuery 1
    · exact ⟨_, if_pos hquery⟩
    · exact ⟨_, if_neg hquery⟩
  maxId := if_pos rfl

/-- A table of three rows at a MySQL server, with explicit ids. -/
def threeRows : PrepareVars :=
  { dbDriver := .mysql
    oltpSecondary := false
    oltpAutoInc := false
    oltpTableSize := 3
    mysqlTableEngine := "innodb"
    myisamMaxRows := "1000000"
    mysqlTableOptions := none }

/-- What the script draws for the rows does not matter. -/
def sameDraws : ℕ → RowDraws := fun _ => ⟨1, "c", "pad"⟩

/-- An empty table is filled. -/
theorem createInsert_resumes_empty :
    HoldsIds (filledServer 0) 1 0 ∧ Resumes threeRows (filledServer 0) sameDraws 1 0 :=
  ⟨filledServer_holdsIds 0, (createInsert_resumes_iff rfl (filledServer_holdsIds 0)
    (Nat.zero_le 3) sameDraws).mpr rfl⟩

/-- A table that holds the first of its three rows: the row is handed over once more. -/
theorem createInsert_rowAgain :
    HoldsIds (filledServer 1) 1 1 ∧
    (∃ calls, createInsert threeRows (filledServer 1) sameDraws 1 = .ok calls ∧
      rowIds calls = [1, 2, 3]) ∧
    ¬ Resumes threeRows (filledServer 1) sameDraws 1 1 := by
  obtain ⟨calls, hcalls, hids⟩ := createInsert_known (v := threeRows) rfl
    (filledServer_holdsIds 1).succeeds sameDraws 1 rfl
  have hids : rowIds calls = [1, 2, 3] := hids
  refine ⟨filledServer_holdsIds 1, ⟨calls, hcalls, hids⟩, ?_⟩
  rintro ⟨calls', hcalls', hcount⟩
  cases hcalls.symm.trans hcalls'
  have hfirst := hcount 1
  rw [hids] at hfirst
  exact absurd hfirst (by decide)

end Sysbench.Scripting
