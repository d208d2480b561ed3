import Sysbench.Database.BulkInsert
import Sysbench.Database.Emulation

/-!
# Database/StatIndices — which elements of `thread_stats[]` the database layer uses

`thread_stats` has one element for each thread.  The index into it comes a long way: an interpreter
is created for a thread, or with -1 for the one that runs `prepare` and `cleanup`; its connection is
given that number; and `db_query` and `db_execute` use it, to count a query that was executed and to
count one that failed.  The first way goes through `db_update_thread_stats`, which leaves a negative
index alone; the second does not.

So the element before the array is written to exactly when the global interpreter executes a query
that the driver answers with a restart or a reconnection (`statIndices_iff`).
-/

namespace Sysbench.Database

open Scripting (DbError)

variable {n : ℕ} {ρ : Type}

/-! ## Where the index comes from -/

/-- The interpreters `script_load_lua` creates: the global one, and one for each of the threads. -/
inductive Interpreter (n : ℕ)
  | global
  | worker (i : Fin n)
  deriving DecidableEq

/-- The `thread_id` of the context that `sb_lua_new_state` makes. -/
def Interpreter.threadId : Interpreter n → ℤ
  | .global => -1
  | .worker i => i

/-- `sb_lua_db_connect`: the `thread_id` that `db_set_thread` gives the connection. -/
def sbLuaDbConnect (L : Interpreter n) : ℤ := L.threadId

/-! ## Where it is used -/

/-- The elements `db_update_thread_stats` uses. -/
def dbUpdateThreadStatsIndices (id : ℤ) : List ℤ := if id < 0 then [] else [id]

/-- The elements `db_query` uses when the driver answers `code`. -/
def dbQueryIndices (id : ℤ) (code : DbError) : List ℤ :=
  if code = .none then dbUpdateThreadStatsIndices id
  else if code = .reconnected then [id]
  else if code = .restartTransaction then [id]
  else []

/-- The elements `db_execute` uses. -/
def dbExecuteIndices (id : ℤ) (code : DbError) : List ℤ :=
  if code ≠ .none then
    if code = .reconnected then [id]
    else if code = .restartTransaction then [id]
    else []
  else dbUpdateThreadStatsIndices id

/-- What the driver answers in a call: to the attempts at a statement in order, and to `COMMIT`. -/
structure DrvCodes where
  statement : ℕ → DbError
  commit : DbError

/-- The answers as `db_bulk_do_insert` sees them, through the result of `db_query`. -/
def DrvCodes.replies (d : DrvCodes) : Replies :=
  ⟨fun i => d.statement i = .none, d.commit = .none⟩

/-- A call of the database layer. -/
inductive DbCall (ρ : Type)
  | query
  | execute
  | bulkDoInsert (isLast : Bool) (c : DbConn ρ)

/-- The answers to the queries of a `db_bulk_do_insert`. -/
def bulkAnswers (d : DrvCodes) (sent : List (Sent ρ)) : List DbError :=
  sent.zipIdx.map fun x =>
    match x.1.query with
    | .insert _ _ => d.statement x.2
    | .commit => d.commit

/-- What the driver answers to the queries a call sends. -/
def DbCall.answers (d : DrvCodes) : DbCall ρ → List DbError
  | .query => [d.statement 0]
  | .execute => [d.statement 0]
  | .bulkDoInsert isLast c =>
    match dbBulkDoInsert isLast d.replies c with
    | .ok r => bulkAnswers d r.2.2
    | .error _ => []

/-- The elements a call uses on a connection with thread id `id`; `db_bulk_do_insert` uses those
that its calls of `db_query` do. -/
def DbCall.indices (id : ℤ) (d : DrvCodes) : DbCall ρ → List ℤ
  | .query => dbQueryIndices id (d.statement 0)
  | .execute => dbExecuteIndices id (d.statement 0)
  | .bulkDoInsert isLast c => ((DbCall.bulkDoInsert isLast c).answers d).flatMap (dbQueryIndices id)

/-! ## They are the elements whose counters change -/

/-- A counter of element `k` is not what it was. -/
def Touched {W : Type} (s s' : DbState W) (k : ℤ) : Prop :=
  s'.errors k ≠ s.errors k ∨ s'.reconnects k ≠ s.reconnects k ∨
    ∃ i : ℕ, k = i ∧ s'.stats i ≠ s.stats i

theorem dbExecuteIndices_eq (id : ℤ) (code : DbError) :
    dbExecuteIndices id code = dbQueryIndices id code := by
  cases code <;> rfl

/-- A counted query changes the counters of its thread, if that has any. -/
theorem dbUpdateThreadStats_ne_iff {stats : ℕ → Counts} {id : ℤ} {type : QueryType} {i : ℕ} :
    dbUpdateThreadStats stats id type i ≠ stats i ↔ (i : ℤ) = id := by
  unfold dbUpdateThreadStats
  split_ifs with hneg
  · exact iff_of_false (not_not.mpr rfl) (by omega)
  · rcases eq_or_ne i id.toNat with rfl | hne
    · rw [Function.update_self]
      refine iff_of_true (fun h => type.counts_ne_zero ?_) (by omega)
      exact left_eq_add.mp h.symm
    · rw [Function.update_of_ne hne]
      exact iff_of_false (not_not.mpr rfl) (by omega)

/-- **The elements `db_query` uses are those it changes.** -/
theorem mem_dbQueryIndices_iff {R W : Type} {query : List UInt8 → W → DrvReply R W} {id k : ℤ}
    {s : DbState W} {text : List UInt8} :
    k ∈ dbQueryIndices id (query text s.world).1 ↔ Touched s (dbQuery query id s text).2 k := by
  rcases hreply : query text s.world with ⟨code, ptr, world⟩
  have hstat : ∀ stats : ℕ → Counts, ∀ type : QueryType,
      (∃ i : ℕ, k = i ∧ dbUpdateThreadStats stats id type i ≠ stats i) ↔ 0 ≤ id ∧ k = id := by
    intro stats type
    simp only [dbUpdateThreadStats_ne_iff]
    constructor
    · rintro ⟨i, rfl, hi⟩
      omega
    · rintro ⟨hpos, rfl⟩
      exact ⟨k.toNat, by omega, by omega⟩
  have hcount : ∀ f : ℤ → ℕ, Function.update f id (f id + 1) k ≠ f k ↔ k = id := by
    intro f
    rcases eq_or_ne k id with rfl | hne
    · rw [Function.update_self]
      exact iff_of_true (Nat.succ_ne_self _) rfl
    · rw [Function.update_of_ne hne]
      exact iff_of_false (not_not.mpr rfl) hne
  cases code with
  | none =>
    simp only [dbQueryIndices, dbUpdateThreadStatsIndices, Touched, dbQuery, hreply, if_true,
      ne_eq, not_true, false_or]
    rw [hstat]
    split_ifs with hneg <;> simp <;> omega
  | restartTransaction => simpa [dbQueryIndices, Touched, dbQuery, hreply, DbState.fail] using
      (hcount s.errors).symm
  | reconnected => simpa [dbQueryIndices, Touched, dbQuery, hreply, DbState.fail] using
      (hcount s.reconnects).symm
  | failed => simp [dbQueryIndices, Touched, dbQuery, hreply, DbState.fail]

/-! ## When they are elements of the array -/

/-- The driver asks for a restart, itself or after it has connected again. -/
def Restarts (code : DbError) : Prop := code = .restartTransaction ∨ code = .reconnected

/-- **The elements are in the array.** -/
def InArray (n : ℕ) (indices : List ℤ) : Prop := ∀ k ∈ indices, 0 ≤ k ∧ k < n

theorem threadId_lt (L : Interpreter n) : L.threadId < n := by
  cases L with
  | global =>
    change (-1 : ℤ) < n
    omega
  | worker i => exact Int.ofNat_lt.mpr i.isLt

theorem threadId_neg_iff (L : Interpreter n) : L.threadId < 0 ↔ L = .global := by
  cases L with
  | global => exact iff_of_true (show (-1 : ℤ) < 0 by decide) rfl
  | worker i => exact iff_of_false (not_lt.mpr (Int.natCast_nonneg _)) (by simp)

/-- **One call of `db_query`.** -/
theorem inArray_dbQueryIndices (L : Interpreter n) (code : DbError) :
    InArray n (dbQueryIndices L.threadId code) ↔ L ≠ .global ∨ ¬ Restarts code := by
  have hlt := threadId_lt L
  have hneg := threadId_neg_iff L
  have hone : InArray n [L.threadId] ↔ L ≠ .global := by
    rw [InArray, List.forall_mem_singleton, ne_eq, ← hneg]
    omega
  have hupdate : InArray n (dbUpdateThreadStatsIndices L.threadId) := by
    unfold dbUpdateThreadStatsIndices
    split_ifs with hid
    · exact fun k hk => absurd hk List.not_mem_nil
    · exact hone.mpr fun hg => hid (hneg.mpr hg)
  cases code with
  | none => exact iff_of_true hupdate (.inr (by simp [Restarts]))
  | restartTransaction => simpa [dbQueryIndices, Restarts] using hone
  | reconnected => simpa [dbQueryIndices, Restarts] using hone
  | failed => exact iff_of_true (fun k hk => absurd hk List.not_mem_nil) (.inr (by simp [Restarts]))

/-- **A call on a connection of the Lua layer uses elements of the array only, if and only if the
connection is that of a thread, or the driver answers none of the queries of the call with a restart
or a reconnection.** -/
theorem statIndices_iff (n : ℕ) (L : Interpreter n) (d : DrvCodes) (call : DbCall ρ) :
    InArray n (call.indices (sbLuaDbConnect L) d) ↔
      L ≠ .global ∨ ∀ code ∈ call.answers d, ¬ Restarts code := by
  have hall : ∀ codes : List DbError, InArray n (codes.flatMap (dbQueryIndices L.threadId)) ↔
      L ≠ .global ∨ ∀ code ∈ codes, ¬ Restarts code := by
    intro codes
    have hflat : InArray n (codes.flatMap (dbQueryIndices L.threadId)) ↔
        ∀ code ∈ codes, InArray n (dbQueryIndices L.threadId code) := List.forall_mem_flatMap
    rw [hflat, forall₂_congr fun code _ => inArray_dbQueryIndices L code]
    simp only [or_iff_not_imp_left]
    exact ⟨fun h hg code hmem => h code hmem hg, fun h code hmem hg => h hg code hmem⟩
  unfold sbLuaDbConnect
  cases call with
  | query => simpa [DbCall.indices, DbCall.answers] using hall [d.statement 0]
  | execute =>
    simpa [DbCall.indices, DbCall.answers, dbExecuteIndices_eq] using hall [d.statement 0]
  | bulkDoInsert isLast c => exact hall _

/-- An answer that `--mysql-ignore-errors` lets pass, each time. -/
def ignoredError : DrvCodes := ⟨fun _ => .restartTransaction, .none⟩

/-- **A query of `prepare` meets an ignorable error**: `db_query` counts it in element -1. -/
theorem statIndices_prepare :
    DbCall.indices (sbLuaDbConnect (Interpreter.global : Interpreter 4)) ignoredError
        (DbCall.query : DbCall Unit) = [-1] ∧
      ¬ InArray 4 (DbCall.indices (sbLuaDbConnect (Interpreter.global : Interpreter 4)) ignoredError
        (DbCall.query : DbCall Unit)) := by
  refine ⟨rfl, fun h => ?_⟩
  exact absurd (h (-1) (List.mem_singleton_self _)).1 (by decide)

end Sysbench.Database
