import Sysbench.Database.Placeholders
import Sysbench.Database.ThreadStats
import Sysbench.Scripting.ErrorCodes

/-!
# Database/Emulation — an emulated statement and the query it stands for

`db_execute` of an emulated statement hands the driver's `query` the expanded text, and treats the
answer as `db_query` does.  One thing is not taken from the expanded text: the type a statement is
counted under is that of the query it was prepared from, with the `?` in it.  No text that is
printed for a parameter continues a keyword (`openings`), so the two are of one type, unless the
parameter before which a keyword could begin is of a type `db_print_value` prints nothing for.
-/

namespace Sysbench.Database

open Scripting (DbError dbErrno)

/-! ## `db_query` and `db_execute` -/

/-- The characters of a text. -/
def chars (bytes : List UInt8) : List Char := bytes.map fun c => Char.ofNat c.toNat

/-- `db_get_query_type`, on the bytes of the query. -/
def queryType (query : List UInt8) : QueryType := dbGetQueryType (chars query)

/-- What the two functions change: the connection's error code, the counters of the threads, and
what lies behind the driver. -/
structure DbState (W : Type) where
  dbErrno : DbError
  stats : ℕ → Counts
  errors : ℤ → ℕ
  reconnects : ℤ → ℕ
  world : W

/-- `db_result_set_t`: whether it is that of a statement, and what the driver left in `ptr`. -/
structure ResultSet (R : Type) where
  ofStatement : Bool
  ptr : Option R
  deriving DecidableEq

/-- What a method of the driver returns, leaves in the result set, and does. -/
abbrev DrvReply (R W : Type) : Type := DbError × Option R × W

section Calls

variable {F R W : Type}

/-- What happens on an error, for the connection of thread `id`. -/
def DbState.fail (s : DbState W) (id : ℤ) (code : DbError) : DbState W :=
  { s with
    dbErrno := Scripting.dbErrno code
    reconnects :=
      if code = .reconnected then Function.update s.reconnects id (s.reconnects id + 1)
      else s.reconnects
    errors :=
      if code = .restartTransaction then Function.update s.errors id (s.errors id + 1)
      else s.errors }

/-- `db_query`, with the driver's `query`. -/
def dbQuery (query : List UInt8 → W → DrvReply R W) (id : ℤ) (s : DbState W)
    (text : List UInt8) : Option (ResultSet R) × DbState W :=
  let (code, ptr, world) := query text s.world
  let s := { s with dbErrno := code, world := world }
  if code = .none then
    (some ⟨false, ptr⟩, { s with stats := dbUpdateThreadStats s.stats id (queryType text) })
  else (none, s.fail id code)

/-- An emulated statement. -/
structure EmulatedStmt (F : Type) where
  query : CStr
  type : QueryType
  params : List (Bind F)

/-- `db_prepare` and `db_bind_param` for a driver that emulates the statement. -/
def emulatedStmt (query : CStr) (params : List (Bind F)) : EmulatedStmt F :=
  ⟨query, queryType query.bytes, params⟩

/-- `db_execute`, with the driver's `execute`. -/
def dbExecute (execute : EmulatedStmt F → W → Except ExpandError (DrvReply R W)) (id : ℤ)
    (s : DbState W) (stmt : EmulatedStmt F) :
    Except ExpandError (Option (ResultSet R) × DbState W) := do
  let (code, ptr, world) ← execute stmt s.world
  let s := { s with dbErrno := code, world := world }
  if code ≠ .none then return (none, s.fail id code)
  else return (some ⟨true, ptr⟩, { s with stats := dbUpdateThreadStats s.stats id stmt.type })

/-! ## The drivers -/

variable (percentF : F → CStr) (realloc : Realloc) (turns : ℕ)
  (send : List UInt8 → W → DrvReply R W)

/-- The emulated part of a driver's `execute`; `query` is its own method for queries. -/
def executeEmulated (query : List UInt8 → W → DrvReply R W) (stmt : EmulatedStmt F) (w : W) :
    Except ExpandError (DrvReply R W) :=
  match expand realloc (boundParam percentF stmt.params) 0 stmt.query turns with
  | .error .noMemory => .ok (.failed, none, w)
  | .error e => .error e
  | .ok (text, _) => .ok (query text w)

/-- `mysql_drv_query`; `send` is `mysql_real_query` with the check of its errors. -/
def mysqlDrvQuery (dryRun : Bool) (text : List UInt8) (w : W) : DrvReply R W :=
  if dryRun then (.none, none, w) else send text w

/-- `mysql_drv_execute`. -/
def mysqlDrvExecute (dryRun : Bool) (stmt : EmulatedStmt F) (w : W) :
    Except ExpandError (DrvReply R W) :=
  if dryRun then .ok (.none, none, w)
  else executeEmulated percentF realloc turns (mysqlDrvQuery send dryRun) stmt w

/-- `pgsql_drv_query`; `send` is `PQexec` with the check of its status. -/
def pgsqlDrvQuery (text : List UInt8) (w : W) : DrvReply R W := send text w

/-- `pgsql_drv_execute`. -/
def pgsqlDrvExecuteEmulated (stmt : EmulatedStmt F) (w : W) : Except ExpandError (DrvReply R W) :=
  executeEmulated percentF realloc turns (pgsqlDrvQuery send) stmt w

/-- `drizzle_drv_query`; `send` is `drizzle_query` with the check of its errors. -/
def drizzleDrvQuery (text : List UInt8) (w : W) : DrvReply R W := send text w

/-- `drizzle_drv_execute`. -/
def drizzleDrvExecute (stmt : EmulatedStmt F) (w : W) : Except ExpandError (DrvReply R W) :=
  executeEmulated percentF realloc turns (drizzleDrvQuery send) stmt w

/-- A driver that emulates statements. -/
inductive Emulating
  | mysql (dryRun : Bool)
  | pgsql
  | drizzle

/-- Its `query`. -/
def Emulating.query : Emulating → List UInt8 → W → DrvReply R W
  | .mysql dryRun => mysqlDrvQuery send dryRun
  | .pgsql => pgsqlDrvQuery send
  | .drizzle => drizzleDrvQuery send

/-- Its `execute`. -/
def Emulating.execute : Emulating → EmulatedStmt F → W → Except ExpandError (DrvReply R W)
  | .mysql dryRun => mysqlDrvExecute percentF realloc turns send dryRun
  | .pgsql => pgsqlDrvExecuteEmulated percentF realloc turns send
  | .drizzle => drizzleDrvExecute percentF realloc turns send

end Calls

/-! ## The type of the expanded text -/

/-- What `db_get_query_type` looks for. -/
def keywords : List (List Char) :=
  ["select".toList, "insert".toList, "update".toList, "delete".toList, "commit".toList,
    "unlock tables".toList]

/-- White space, for `isspace`. -/
def isSpace (c : Char) : Bool := c ∈ [' ', '\t', '\n', '\x0b', '\x0c', '\r']

/-- The type depends on the keywords the text begins with. -/
theorem dbGetQueryType_congr {query query' : List Char}
    (h : ∀ kw ∈ keywords,
      beginsWith (query.dropWhile isSpace) kw = beginsWith (query'.dropWhile isSpace) kw) :
    dbGetQueryType query = dbGetQueryType query' := by
  simp only [keywords, List.forall_mem_cons] at h
  obtain ⟨h₁, h₂, h₃, h₄, h₅, h₆, -⟩ := h
  unfold isSpace at h₁ h₂ h₃ h₄ h₅ h₆
  unfold dbGetQueryType
  dsimp only
  rw [h₁, h₂, h₃, h₄, h₅, h₆]

/-- Two texts go on differently from the keyword, wherever in it they begin. -/
theorem beginsWith_append_congr {x y : List Char} (p : List Char) {kw : List Char}
    (hx : ∀ kw', kw' <:+ kw → kw' ≠ [] → beginsWith x kw' = false)
    (hy : ∀ kw', kw' <:+ kw → kw' ≠ [] → beginsWith y kw' = false) :
    beginsWith (p ++ x) kw = beginsWith (p ++ y) kw := by
  induction p generalizing kw with
  | nil =>
    cases kw with
    | nil => cases x <;> cases y <;> rfl
    | cons d kw =>
      have hself : d :: kw <:+ d :: kw := List.suffix_rfl
      rw [List.nil_append, List.nil_append, hx _ hself nofun, hy _ hself nofun]
  | cons c p ih =>
    cases kw with
    | nil => rfl
    | cons d kw =>
      have hrest : ∀ kw', kw' <:+ kw → kw' <:+ d :: kw :=
        fun kw' h => h.trans (List.suffix_cons d kw)
      rw [List.cons_append, List.cons_append, beginsWith, beginsWith,
        ih (fun kw' h => hx kw' (hrest kw' h)) (fun kw' h => hy kw' (hrest kw' h))]

/-- A text that begins with the keyword agrees with it as far as they both go. -/
theorem beginsWith_take {x rest kw : List Char} (h : beginsWith (x ++ rest) kw = true) :
    beginsWith x (kw.take x.length) = true := by
  induction x generalizing kw with
  | nil => rfl
  | cons c x ih =>
    cases kw with
    | nil => rfl
    | cons d kw =>
      rw [List.cons_append, beginsWith, Bool.and_eq_true] at h
      rw [List.length_cons, List.take_succ_cons, beginsWith, Bool.and_eq_true]
      exact ⟨h.1, ih h.2⟩

/-- How a number may begin, as `%d` and `%f` print it. -/
def numberOpenings : List (List Char) :=
  ["-", "0", "1", "2", "3", "4", "5", "6", "7", "8", "9", "inf", "nan"].map String.toList

/-- How a placeholder, and what is printed in its place, may begin. -/
def openings : List (List Char) := ["?", "'", "NULL"].map String.toList ++ numberOpenings

/-- **No opening continues a keyword**, wherever in the keyword it comes. -/
theorem beginsWith_opening {o kw kw' : List Char} (ho : o ∈ openings) (hkw : kw ∈ keywords)
    (hsuffix : kw' <:+ kw) (hne : kw' ≠ []) (rest : List Char) :
    beginsWith (o ++ rest) kw' = false := by
  have hall : ∀ o ∈ openings, ∀ kw ∈ keywords, ∀ kw' ∈ kw.tails, kw' ≠ [] →
      beginsWith o (kw'.take o.length) = false := by
    decide +kernel
  have hfalse := hall o ho kw hkw kw' ((List.mem_tails kw' kw).mpr hsuffix) hne
  by_contra htrue
  rw [Bool.not_eq_false] at htrue
  exact absurd (beginsWith_take htrue) (by rw [hfalse]; exact Bool.false_ne_true)

/-- An opening is not white space. -/
theorem dropWhile_opening {o : List Char} (ho : o ∈ openings) (p rest : List Char) :
    (p ++ (o ++ rest)).dropWhile isSpace = p.dropWhile isSpace ++ (o ++ rest) := by
  have hall : ∀ o ∈ openings, (o.head?.any fun c => !isSpace c) = true := by decide +kernel
  have hhead := hall o ho
  cases o with
  | nil => cases hhead
  | cons c o =>
    have hc : isSpace c = false := by simpa using hhead
    have hkeep : (c :: o ++ rest).dropWhile isSpace = c :: o ++ rest := by
      rw [List.cons_append, List.dropWhile_cons, hc]
      rfl
    rw [List.dropWhile_append]
    split_ifs with hempty
    · rw [hkeep, List.isEmpty_iff.mp hempty, List.nil_append]
    · rfl

/-- **What comes behind an opening does not matter for the type.** -/
theorem dbGetQueryType_opening {o o' : List Char} (ho : o ∈ openings) (ho' : o' ∈ openings)
    (p rest rest' : List Char) :
    dbGetQueryType (p ++ (o ++ rest)) = dbGetQueryType (p ++ (o' ++ rest')) := by
  refine dbGetQueryType_congr fun kw hkw => ?_
  rw [dropWhile_opening ho, dropWhile_opening ho']
  exact beginsWith_append_congr _
    (fun kw' hsuffix hne => beginsWith_opening ho hkw hsuffix hne rest)
    (fun kw' hsuffix hne => beginsWith_opening ho' hkw hsuffix hne rest')

/-! ## What is printed for a parameter -/

/-- The text begins like a number. -/
def OpensNumber (text : CStr) : Prop := ∃ o ∈ numberOpenings, o <+: chars text.bytes

/-- The text begins with an opening. -/
def Opens (text : CStr) : Prop := ∃ o ∈ openings, o <+: chars text.bytes

theorem OpensNumber.opens {text : CStr} (h : OpensNumber text) : Opens text := by
  obtain ⟨o, ho, hbegin⟩ := h
  exact ⟨o, List.mem_append_right _ ho, hbegin⟩

theorem opensNumber_percentD (z : ℤ) : OpensNumber (percentD z) := by
  have hne : decimalBytes z ≠ [] := by simp [decimalBytes, Nat.toDigits_ne_nil]
  obtain ⟨c, rest, hbytes⟩ := List.exists_cons_of_ne_nil hne
  have hc := mem_decimalBytes (hbytes ▸ List.mem_cons_self : c ∈ decimalBytes z)
  have hall : ∀ n < 256, (n = '-'.toUInt8.toNat ∨ 48 ≤ n ∧ n ≤ 57) →
      [Char.ofNat n] ∈ numberOpenings := by
    decide +kernel
  refine ⟨[Char.ofNat c.toNat], hall _ c.toNat_lt (hc.imp_left (congrArg UInt8.toNat)), ?_⟩
  rw [percentD_bytes, hbytes]
  exact ⟨chars rest, rfl⟩

theorem opens_quoted (ts : List CStr) : Opens (quoted ts) :=
  ⟨"'".toList, by decide, (concat (ts ++ [CStr.lit "'"])).bytes.map _, rfl⟩

section Rendered

variable {F : Type} {percentF : F → CStr}

/-- **Whatever is printed begins with an opening.** -/
theorem opens_rendered {var : Bind F} (hF : ∀ v, OpensNumber (percentF v))
    (hprints : (dbPrintValue percentF var).isSome) : Opens (rendered percentF var) := by
  obtain ⟨text, htext⟩ := Option.isSome_iff_exists.mp hprints
  rw [rendered, htext, Option.getD_some]
  unfold dbPrintValue at htext
  split_ifs at htext
  · obtain rfl := Option.some.inj htext
    exact ⟨"NULL".toList, by decide, [], rfl⟩
  · cases hvalue : var.value <;> rw [hvalue] at htext
    case none => cases htext
    all_goals obtain rfl := Option.some.inj htext
    case tinyint v | smallint v | int v | bigint v => exact (opensNumber_percentD _).opens
    case float v | double v => exact (hF v).opens
    all_goals exact opens_quoted _

/-- What comes before the placeholders is left alone. -/
theorem filled_append {texts : ℕ → CStr} {p : List UInt8} (hp : '?'.toUInt8 ∉ p)
    (query : List UInt8) (k : ℕ) : filled texts (p ++ query) k = p ++ filled texts query k := by
  induction p with
  | nil => rfl
  | cons c p ih =>
    rw [List.mem_cons, not_or] at hp
    rw [List.cons_append, filled, if_pos (Ne.symm hp.1), ih hp.2, List.cons_append]

/-- **The expanded text has the type of the query**, when the first placeholder is replaced by
something that begins with an opening. -/
theorem queryType_filled {texts : ℕ → CStr} {query : List UInt8}
    (h : '?'.toUInt8 ∈ query → Opens (texts 0)) :
    queryType (filled texts query 0) = queryType query := by
  by_cases hmem : '?'.toUInt8 ∈ query
  · obtain ⟨o, ho, rest, hrest⟩ := h hmem
    obtain ⟨p, query, rfl, hp⟩ := List.eq_append_cons_of_mem hmem
    have hfirst : chars ('?'.toUInt8 :: query) = "?".toList ++ chars query := rfl
    have happend : ∀ as bs, chars (as ++ bs) = chars as ++ chars bs := fun as bs => List.map_append
    rw [filled_append hp, filled, if_neg (not_not.mpr rfl), queryType, queryType, happend, happend,
      happend, hfirst, ← hrest, List.append_assoc]
    exact dbGetQueryType_opening ho (by decide) _ _ _
  · have hsame : filled texts (query ++ []) 0 = query ++ filled texts [] 0 :=
      filled_append hmem [] 0
    rw [filled, List.append_nil] at hsame
    rw [hsame]

end Rendered

/-! ## The statement and the query -/

section Execute

variable {F R W : Type} {percentF : F → CStr} {realloc : Realloc} {query : CStr}
  {params : List (Bind F)} {turns : ℕ}

/-- The texts of the parameters that are printed. -/
def renderings (percentF : F → CStr) (query : CStr) (params : List (Bind F)) : List CStr :=
  (params.take (query.bytes.count '?'.toUInt8)).map (rendered percentF)

/-- The text of parameter `k`. -/
def paramText (percentF : F → CStr) (params : List (Bind F)) (k : ℕ) : CStr :=
  params[k]?.elim (.ofBytes []) (rendered percentF)

theorem map_paramText {n : ℕ} (hn : n ≤ params.length) :
    (List.range n).map (paramText percentF params) = (params.take n).map (rendered percentF) := by
  refine List.ext_getElem (by simp [hn]) fun k hk _ => ?_
  have hlt : k < params.length := by
    rw [List.length_map, List.length_range] at hk
    omega
  simp [paramText, List.getElem?_eq_getElem hlt]

theorem filled_paramText (hparams : query.bytes.count '?'.toUInt8 ≤ params.length) :
    filled (paramText percentF params) query.bytes 0
      = replaced query (renderings percentF query params) := by
  rw [filled_eq_replaced, ← List.range_eq_range', map_paramText hparams, renderings]

/-- **The text an emulated statement is executed as.** -/
theorem expand_boundParam (hmem : ∀ n ≤ 2 ^ 31, (realloc n).isSome) (hne : query.bytes ≠ [])
    (hquery : query.length < 2 ^ 32) (hparams : query.bytes.count '?'.toUInt8 ≤ params.length)
    (htotal : (replaced query (renderings percentF query params)).length < 2 ^ 30)
    (hturns : query.length + 32 ≤ turns) :
    expand realloc (boundParam percentF params) 0 query turns
      = .ok (replaced query (renderings percentF query params),
          query.bytes.count '?'.toUInt8) := by
  have hcount : query.bytes.count '?'.toUInt8 ≤ query.bytes.length := List.count_le_length
  have hquery' : query.bytes.length < 2 ^ 32 := hquery
  rw [← filled_paramText hparams] at htotal ⊢
  rw [expand_eq hmem hquery hne (fun k _ hk => ?_) (by omega) htotal hturns, zero_add]
  have hget : params[k]? = some _ := List.getElem?_eq_getElem (by omega)
  rw [paramText, hget]
  exact renders_boundParam hget

/-- Two calls end alike, the counters of the queries apart. -/
structure SameOutcome (a b : Option (ResultSet R) × DbState W) : Prop where
  result : a.1.map ResultSet.ptr = b.1.map ResultSet.ptr
  dbErrno : a.2.dbErrno = b.2.dbErrno
  errors : a.2.errors = b.2.errors
  reconnects : a.2.reconnects = b.2.reconnects
  world : a.2.world = b.2.world

/-- A driver's `execute` is its `query` of the expanded text. -/
theorem execute_eq_query {d : Emulating} {send : List UInt8 → W → DrvReply R W}
    {text : List UInt8} {n : ℕ} {type : QueryType}
    (hexpand : expand realloc (boundParam percentF params) 0 query turns = .ok (text, n)) (w : W) :
    d.execute percentF realloc turns send ⟨query, type, params⟩ w = .ok (d.query send text w) := by
  cases d with
  | mysql dryRun =>
    cases dryRun with
    | false => simp [Emulating.execute, Emulating.query, mysqlDrvExecute, executeEmulated, hexpand]
    | true => rfl
  | pgsql =>
    simp [Emulating.execute, Emulating.query, pgsqlDrvExecuteEmulated, executeEmulated, hexpand]
  | drizzle =>
    simp [Emulating.execute, Emulating.query, drizzleDrvExecute, executeEmulated, hexpand]

/-- **Executing a statement and sending a query are treated alike**, but for the type they are
counted under. -/
theorem dbExecute_of_query {execute : EmulatedStmt F → W → Except ExpandError (DrvReply R W)}
    {send : List UInt8 → W → DrvReply R W} {stmt : EmulatedStmt F} {text : List UInt8}
    {s : DbState W} (h : execute stmt s.world = .ok (send text s.world)) (id : ℤ) :
    ∃ a, dbExecute execute id s stmt = .ok a ∧ SameOutcome a (dbQuery send id s text) ∧
      (stmt.type = queryType text → a.2.stats = (dbQuery send id s text).2.stats) := by
  rcases hreply : send text s.world with ⟨code, ptr, world⟩
  rw [hreply] at h
  by_cases hcode : code = .none
  · have hquery : dbQuery send id s text = (some ⟨false, ptr⟩, { s with
        dbErrno := code
        world := world
        stats := dbUpdateThreadStats s.stats id (queryType text) }) := by
      simp only [dbQuery, hreply, if_pos hcode]
    have hexecute : dbExecute execute id s stmt = .ok (some ⟨true, ptr⟩, { s with
        dbErrno := code
        world := world
        stats := dbUpdateThreadStats s.stats id stmt.type }) := by
      simp only [dbExecute, h, bind, Except.bind, ne_eq, hcode, not_true, if_false, pure,
        Except.pure]
    rw [hquery]
    exact ⟨_, hexecute, ⟨rfl, rfl, rfl, rfl, rfl⟩, fun htype => by rw [htype]⟩
  · have hquery : dbQuery send id s text
        = (none, { s with dbErrno := code, world := world }.fail id code) := by
      simp only [dbQuery, hreply, if_neg hcode]
    have hexecute : dbExecute execute id s stmt
        = .ok (none, { s with dbErrno := code, world := world }.fail id code) := by
      simp only [dbExecute, h, bind, Except.bind, ne_eq, hcode, not_false_eq_true, if_true, pure,
        Except.pure]
    rw [hquery]
    exact ⟨_, hexecute, ⟨rfl, rfl, rfl, rfl, rfl⟩, fun _ => rfl⟩

/-- The type a statement is counted under is that of the text it is executed as, when something is
printed for its first placeholder. -/
theorem queryType_replaced (hF : ∀ v, OpensNumber (percentF v))
    (hparams : query.bytes.count '?'.toUInt8 ≤ params.length)
    (hprints : '?'.toUInt8 ∈ query.bytes →
      ∀ var, params[0]? = some var → (dbPrintValue percentF var).isSome) :
    queryType (replaced query (renderings percentF query params)) = queryType query.bytes := by
  rw [← filled_paramText hparams]
  refine queryType_filled fun hmem => ?_
  have hget : params[0]? = some _ :=
    List.getElem?_eq_getElem ((List.count_pos_iff.mpr hmem).trans_le hparams)
  rw [paramText, hget]
  exact opens_rendered hF (hprints hmem _ hget)

/-- **The expansion of placeholders is exact.**  For every printer, and for `pgsql_drv_prepare`, the
loop ends without leaving its buffer, and the text is the query with the placeholders replaced.  To
execute an emulated statement is to send that text as a query; it is counted alike when something is
printed for the first placeholder. -/
theorem expansion_exact (percentF : F → CStr) (realloc : Realloc) (query : CStr)
    (hF : ∀ v, OpensNumber (percentF v)) (hmem : ∀ n ≤ 2 ^ 31, (realloc n).isSome)
    (hne : query.bytes ≠ []) :
    (∀ (print : Printer) (texts : ℕ → CStr) (turns : ℕ), query.length < 2 ^ 32 →
      (∀ k < placeholders query, Renders print k (texts k)) →
      (replaced query ((List.range (placeholders query)).map texts)).length < 2 ^ 30 →
      query.length + 32 ≤ turns →
      expand realloc print 0 query turns
        = .ok (replaced query ((List.range (placeholders query)).map texts),
            placeholders query)) ∧
    (∀ turns : ℕ,
      (replaced query ((List.range' 1 (placeholders query)).map numbered)).length < 2 ^ 30 →
      query.length + 32 ≤ turns →
      pgsqlDrvPrepare realloc true query turns
        = .ok (.converted (replaced query ((List.range' 1 (placeholders query)).map numbered))
            (placeholders query))) ∧
    ∀ (d : Emulating) (send : List UInt8 → W → DrvReply R W) (params : List (Bind F)) (id : ℤ)
      (s : DbState W) (turns : ℕ), query.length < 2 ^ 32 → placeholders query ≤ params.length →
      (replaced query (renderings percentF query params)).length < 2 ^ 30 →
      query.length + 32 ≤ turns →
      ∃ a, dbExecute (d.execute percentF realloc turns send) id s (emulatedStmt query params)
          = .ok a ∧
        SameOutcome a
          (dbQuery (d.query send) id s (replaced query (renderings percentF query params))) ∧
        (('?'.toUInt8 ∈ query.bytes → ∀ var, params[0]? = some var →
            (dbPrintValue percentF var).isSome) →
          a.2.stats = (dbQuery (d.query send) id s
            (replaced query (renderings percentF query params))).2.stats) := by
  refine ⟨fun print texts turns hquery hrender htotal hturns => ?_, fun turns htotal hturns => ?_,
    fun d send params id s turns hquery hparams htotal hturns => ?_⟩
  · have hcount : 0 + placeholders query < 2 ^ 32 := by
      rw [zero_add]
      exact List.count_le_length.trans_lt hquery
    rw [List.range_eq_range', ← filled_eq_replaced] at htotal ⊢
    rw [expand_eq hmem hquery hne (fun k _ hk => hrender k (by rwa [zero_add] at hk)) hcount htotal
      hturns, zero_add]
  · rw [← filled_eq_replaced] at htotal ⊢
    exact pgsqlDrvPrepare_eq hmem hne htotal hturns
  · have hexpand := expand_boundParam hmem hne hquery hparams htotal hturns
    obtain ⟨a, hexecute, hsame, hstats⟩ :=
      dbExecute_of_query (s := s) (execute_eq_query (d := d) hexpand s.world) id
    refine ⟨a, hexecute, hsame, fun hprints => hstats ?_⟩
    exact (queryType_replaced hF hparams hprints).symm

end Execute

/-- Floating-point parameters that are all 1.5. -/
def onePointFive (_ : Unit) : CStr := .lit "1.500000"

/-- Memory is never exhausted, and is not cleared. -/
def plenty : Realloc := fun _ => some fun i => UInt8.ofNat i

/-- A server that accepts every query; what lies behind the driver is the queries it got. -/
def acceptAll (text : List UInt8) (w : List (List UInt8)) : DrvReply Unit (List (List UInt8)) :=
  (.none, none, w ++ [text])

/-- Before any query. -/
def quiet : DbState (List (List UInt8)) := ⟨.none, fun _ => 0, fun _ => 0, fun _ => 0, []⟩

theorem expansion_exact_select :
    ∃ a, dbExecute (Emulating.pgsql.execute onePointFive plenty 60 acceptAll) 0 quiet
        (emulatedStmt (.lit "SELECT ?, ?") [⟨.int 7, none⟩, ⟨.double (), none⟩]) = .ok a ∧
      a.2.stats = (dbQuery (Emulating.pgsql.query acceptAll) 0 quiet
        (CStr.lit "SELECT 7, 1.500000").bytes).2.stats := by
  have htext : replaced (.lit "SELECT ?, ?") (renderings onePointFive (.lit "SELECT ?, ?")
      [⟨.int 7, none⟩, ⟨.double (), none⟩]) = (CStr.lit "SELECT 7, 1.500000").bytes := by
    decide +kernel
  have hF : ∀ v, OpensNumber (onePointFive v) :=
    fun _ => ⟨"1".toList, by decide, chars (CStr.lit ".500000").bytes, rfl⟩
  have hexact := expansion_exact (R := Unit) (W := List (List UInt8)) onePointFive plenty
    (.lit "SELECT ?, ?") hF (fun _ _ => rfl) (by decide)
  obtain ⟨a, hexecute, -, hstats⟩ := hexact.2.2 .pgsql acceptAll
    [⟨.int 7, none⟩, ⟨.double (), none⟩] 0 quiet 60 (by decide) (by decide)
    (by rw [htext]; decide) (by decide)
  refine ⟨a, hexecute, ?_⟩
  rw [htext] at hstats
  refine hstats fun _ var hvar => ?_
  obtain rfl := Option.some.inj hvar
  rfl

/-- **Where nothing is printed for a placeholder.**  A parameter of no type before a keyword: the
statement is counted as another operation, the text it is executed as is a read.  And a query of
`2 ^ 32` placeholders, for which nothing is printed, is not expanded in any number of turns. -/
theorem expansion_emptyTexts :
    (replaced (.lit "?select 1") (renderings onePointFive (.lit "?select 1") [⟨.none, none⟩])
        = (CStr.lit "select 1").bytes ∧
      (dbExecute (Emulating.pgsql.execute onePointFive plenty 60 acceptAll) 0 quiet
        (emulatedStmt (.lit "?select 1") [⟨.none, none⟩])).toOption.map
          (fun a => (a.2.world, a.2.stats 0 .readOps, a.2.stats 0 .otherOps))
        = some ([(CStr.lit "select 1").bytes], 0, 1) ∧
      (dbQuery (Emulating.pgsql.query acceptAll) 0 quiet
        (CStr.lit "select 1").bytes).2.stats 0 .readOps = 1) ∧
    (∀ k, Renders printNothing k (.ofBytes [])) ∧
    replaced onlyPlaceholders
      ((List.range (placeholders onlyPlaceholders)).map fun _ => .ofBytes []) = [] ∧
    ∀ turns, expand plenty printNothing 0 onlyPlaceholders turns = .error .running := by
  refine ⟨⟨by decide +kernel, by decide +kernel, by decide +kernel⟩, renders_printNothing,
    replaced_onlyPlaceholders, fun turns => ?_⟩
  exact expand_onlyPlaceholders (fun _ _ => rfl) 0 turns

end Sysbench.Database
