import Sysbench.Machinery.CString
import Sysbench.Machinery.MachineInt

/-!
# Database/Binds — bind variables, and the parameters PostgreSQL is given

A statement's parameter is a `db_bind_t`: a type, a buffer, and a pointer to an indicator that may
be absent.  A driver that emulates prepared statements prints each with `db_print_value` into the
text of the query.  `pgsql_drv_execute` has a second way: it converts the parameters to text in
buffers of its own and passes these to the server.  It asks whether there is an indicator, not what
the indicator says.
-/

namespace Sysbench.Database

/-! ## Bind variables -/

/-- `db_time_t`. -/
structure DbTime where
  year : UInt32
  month : UInt32
  day : UInt32
  hour : UInt32
  minute : UInt32
  second : UInt32

/-- A type of `db_bind_type_t`, with what a buffer of that type holds.  Nothing but `%f` ever looks
at a `float` or a `double`; `F` is what they are. -/
inductive BindValue (F : Type)
  | none
  | tinyint (v : Int8)
  | smallint (v : Int16)
  | int (v : Int32)
  | bigint (v : Int64)
  | float (v : F)
  | double (v : F)
  | time (v : DbTime)
  | date (v : DbTime)
  | datetime (v : DbTime)
  | timestamp (v : DbTime)
  | char (s : CStr)
  | varchar (s : CStr)

/-- `db_bind_t`; `isNull` is what the indicator says, if there is one. -/
structure Bind (F : Type) where
  value : BindValue F
  isNull : Option Bool

/-! ## `db_print_value` -/

/-- The digits of a number, and its sign. -/
def decimalBytes (z : ℤ) : List UInt8 :=
  (if z < 0 then ['-'.toUInt8] else []) ++ (Nat.toDigits 10 z.natAbs).map Char.toUInt8

/-- `%d`, and with a length modifier for the other widths. -/
def percentD (z : ℤ) : CStr := .ofBytes (decimalBytes z)

/-- `%d` for an `unsigned int`. -/
def percentDOfUnsigned (v : UInt32) : CStr := percentD v.toInt32.toInt

theorem zero_notMem_flatMap_bytes (ts : List CStr) : 0 ∉ ts.flatMap CStr.bytes := by
  intro h
  obtain ⟨t, -, ht⟩ := List.mem_flatMap.mp h
  exact t.noNul ht

/-- Strings one behind the other. -/
def concat (ts : List CStr) : CStr := ⟨ts.flatMap CStr.bytes, zero_notMem_flatMap_bytes ts⟩

/-- A text in single quotes. -/
def quoted (ts : List CStr) : CStr := concat (.lit "'" :: ts ++ [.lit "'"])

section Print

variable {F : Type} (percentF : F → CStr)

/-- What the switch of `db_print_value` prints; for a type it does not know, nothing. -/
def BindValue.text : BindValue F → Option CStr
  | .none => Option.none
  | .tinyint v => some (percentD v.toInt)
  | .smallint v => some (percentD v.toInt)
  | .int v => some (percentD v.toInt)
  | .bigint v => some (percentD v.toInt)
  | .float v | .double v => some (percentF v)
  | .char s | .varchar s => some (quoted [s])
  | .date tm => some (quoted
      [percentDOfUnsigned tm.year, .lit "-", percentDOfUnsigned tm.month, .lit "-",
        percentDOfUnsigned tm.day])
  | .time tm => some (quoted
      [percentDOfUnsigned tm.hour, .lit ":", percentDOfUnsigned tm.minute, .lit ":",
        percentDOfUnsigned tm.second])
  | .datetime tm | .timestamp tm => some (quoted
      [percentDOfUnsigned tm.year, .lit "-", percentDOfUnsigned tm.month, .lit "-",
        percentDOfUnsigned tm.day, .lit " ", percentDOfUnsigned tm.hour, .lit ":",
        percentDOfUnsigned tm.minute, .lit ":", percentDOfUnsigned tm.second])

/-- `db_print_value`: the text it prints, before it is cut to the length of the buffer. -/
def dbPrintValue (var : Bind F) : Option CStr :=
  if var.isNull = some true then some (.lit "NULL") else var.value.text percentF

end Print

theorem toUInt8_toNat_of_isDigit {c : Char} (h : c.isDigit = true) :
    48 ≤ c.toUInt8.toNat ∧ c.toUInt8.toNat ≤ 57 := by
  have hrange : 48 ≤ c.val.toNat ∧ c.val.toNat ≤ 57 := by
    simpa [Char.isDigit, UInt32.le_iff_toNat_le] using h
  have hmod : c.toUInt8.toNat = c.val.toNat % 256 := rfl
  omega

/-- Nothing but a sign and digits. -/
theorem mem_decimalBytes {z : ℤ} {c : UInt8} (h : c ∈ decimalBytes z) :
    c = '-'.toUInt8 ∨ 48 ≤ c.toNat ∧ c.toNat ≤ 57 := by
  rcases List.mem_append.mp h with h | h
  · split_ifs at h
    · exact .inl (List.mem_singleton.mp h)
    · exact absurd h List.not_mem_nil
  · obtain ⟨d, hd, rfl⟩ := List.mem_map.mp h
    exact .inr (toUInt8_toNat_of_isDigit (Nat.isDigit_of_mem_toDigits (by decide) (by decide) hd))

theorem notMem_decimalBytes {z : ℤ} {c : UInt8} (hminus : c ≠ '-'.toUInt8)
    (hdigit : ¬ (48 ≤ c.toNat ∧ c.toNat ≤ 57)) : c ∉ decimalBytes z :=
  fun h => (mem_decimalBytes h).elim hminus hdigit

theorem percentD_bytes (z : ℤ) : (percentD z).bytes = decimalBytes z :=
  CStr.ofBytes_bytes (notMem_decimalBytes (by decide) (by decide))

/-- The text of a number of at most 64 bits. -/
theorem length_percentD_le {z : ℤ} (h : z.natAbs < 10 ^ 20) : (percentD z).length ≤ 21 := by
  have hdigits : (Nat.toDigits 10 z.natAbs).length ≤ 20 :=
    (Nat.length_toDigits_le_iff (by decide) (by decide)).mpr h
  rw [CStr.length, percentD_bytes, decimalBytes, List.length_append, List.length_map]
  split_ifs
  · rw [List.length_singleton]
    omega
  · rw [List.length_nil]
    omega

/-! ## The emulated path -/

section Paths

variable {F : Type} (percentF : F → CStr)

/-- The query text a driver builds by itself: each `?` is replaced by the next parameter.  (The
buffer for it is doubled until the text fits.)  There are as many parameters as there are `?`. -/
def emulatedQuery : List UInt8 → List (Bind F) → List UInt8
  | [], _ => []
  | c :: query, binds =>
    if c ≠ '?'.toUInt8 then c :: emulatedQuery query binds
    else match binds with
      | [] => []
      | var :: binds =>
        ((dbPrintValue percentF var).elim [] CStr.bytes) ++ emulatedQuery query binds

/-- The text printed for a parameter. -/
def printed (var : Bind F) : List UInt8 := (dbPrintValue percentF var).elim [] CStr.bytes

/-- The pieces of a query, with a text behind each but the last. -/
def splice : (pieces texts : List (List UInt8)) → List UInt8
  | [], _ => []
  | piece :: _, [] => piece
  | piece :: pieces, text :: texts => piece ++ text ++ splice pieces texts

theorem splice_modifyHead (c : UInt8) (pieces texts : List (List UInt8)) (h : pieces ≠ []) :
    splice (pieces.modifyHead (c :: ·)) texts = c :: splice pieces texts := by
  obtain ⟨piece, pieces, rfl⟩ := List.exists_cons_of_ne_nil h
  cases texts <;> rfl

/-- **The emulated path prints the parameters in their order**, each in the place of its `?`. -/
theorem emulatedQuery_eq : ∀ {query : List UInt8} {binds : List (Bind F)},
    binds.length = query.count '?'.toUInt8 → emulatedQuery percentF query binds
      = splice (query.splitOn '?'.toUInt8) (binds.map (printed percentF))
  | [], [], _ => rfl
  | c :: query, binds, h => by
    rw [List.splitOn_cons_eq_if_modifyHead]
    rcases eq_or_ne c '?'.toUInt8 with rfl | hc
    · rw [List.count_cons_self] at h
      obtain ⟨var, binds, rfl⟩ := List.exists_cons_of_length_eq_add_one h
      rw [if_pos (beq_self_eq_true _), List.map_cons, splice, List.nil_append,
        ← emulatedQuery_eq (Nat.succ.inj h)]
      rfl
    · rw [List.count_cons_of_ne hc] at h
      rw [if_neg (by simpa using hc), splice_modifyHead c _ _ (List.splitOn_ne_nil _ _),
        ← emulatedQuery_eq h]
      exact if_pos hc

/-- A text without the quotes around it. -/
def unquoted (text : CStr) : List UInt8 :=
  if text.bytes.head? = some '\''.toUInt8 ∧ text.bytes.getLast? = some '\''.toUInt8
  then text.bytes.tail.dropLast else text.bytes

/-! ## The server-side path -/

/-- `MAX_PARAM_LENGTH`. -/
def maxParamLength : ℕ := 256

/-- A buffer for a parameter. -/
abbrev PValue : Type := Block maxParamLength

/-- A prepared statement: `db_stmt_t` with its `pg_stmt_t`. -/
structure PgStmt (F : Type) where
  nparams : ℕ
  prepared : Bool
  pvalues : List PValue
  boundParam : List (Bind F)

/-- `pgsql_drv_bind_param` for a statement that is not emulated.  `prepareOk` is whether `PQprepare`
succeeded, `malloc` what stands in the buffers it gets. -/
def pgsqlDrvBindParam (prepareOk : Bool) (malloc : ℕ → PValue) (stmt : PgStmt F)
    (params : List (Bind F)) : PgStmt F × Bool :=
  let stmt := { stmt with boundParam := params }
  if stmt.prepared then (stmt, true)
  else if stmt.nparams ≠ params.length then (stmt, false)
  else if !prepareOk then (stmt, false)
  else ({ stmt with pvalues := (List.range params.length).map malloc, prepared := true }, true)

/-- One parameter in the loop of `pgsql_drv_execute`. -/
def setPValue (var : Bind F) (pvalue : PValue) : PValue :=
  if var.isNull.isSome then pvalue
  else match var.value with
    | .char s | .varchar s => pvalue.strncpy s
    | _ => (dbPrintValue percentF var).elim pvalue pvalue.snprintf

/-- What `pgsql_drv_execute` passes to `PQexecPrepared`: pointers, none of which is null. -/
def pgsqlDrvExecute (stmt : PgStmt F) : List (Option PValue) :=
  (stmt.boundParam.zipWith (setPValue percentF) stmt.pvalues).map some

/-! ## The two paths -/

/-- The statement has been prepared, and a parameter list of the right length bound to it. -/
structure PgStmt.Ready (stmt : PgStmt F) : Prop where
  prepared : stmt.prepared = true
  bound : stmt.boundParam.length = stmt.nparams
  allocated : stmt.pvalues.length = stmt.nparams

/-- **A successful `pgsql_drv_bind_param` leaves such a statement.** -/
theorem ready_pgsqlDrvBindParam {prepareOk : Bool} {malloc : ℕ → PValue} {stmt stmt' : PgStmt F}
    {params : List (Bind F)} (hstmt : stmt.prepared = true → stmt.pvalues.length = stmt.nparams)
    (hlen : params.length = stmt.nparams)
    (h : pgsqlDrvBindParam prepareOk malloc stmt params = (stmt', true)) : stmt'.Ready := by
  unfold pgsqlDrvBindParam at h
  dsimp only at h
  split_ifs at h with hprepared hcount hok
  · obtain rfl := congrArg Prod.fst h
    exact ⟨hprepared, hlen, hstmt hprepared⟩
  · exact absurd (congrArg Prod.snd h) Bool.false_ne_true
  · exact absurd (congrArg Prod.snd h) Bool.false_ne_true
  · obtain rfl := congrArg Prod.fst h
    exact ⟨rfl, hlen, by simp [hlen]⟩

/-- Integers of any value, and strings shorter than `MAX_PARAM_LENGTH`. -/
def BindValue.Plain : BindValue F → Prop
  | .tinyint _ | .smallint _ | .int _ | .bigint _ => True
  | .char s | .varchar s => s.length < maxParamLength
  | _ => False

/-- What is passed to the server is what is printed: a null pointer for `NULL`, else the text
without its quotes. -/
def Agrees (sent : Option PValue) (printed : CStr) : Prop :=
  match sent with
  | none => printed = .lit "NULL"
  | some m => printed ≠ .lit "NULL" ∧ ∃ t : CStr, t.bytes = unquoted printed ∧ m.Holds t

/-- The parameters agree position by position. -/
def PathsAgree (stmt : PgStmt F) : Prop :=
  List.Forall₂ (fun sent var => ∃ text, dbPrintValue percentF var = some text ∧ Agrees sent text)
    (pgsqlDrvExecute percentF stmt) stmt.boundParam

/-- There is no indicator; or it is clear, and the buffer holds the text already. -/
def Converted (var : Bind F) (pvalue : PValue) : Prop :=
  var.isNull = none ∨ var.isNull = some false ∧
    ∃ text t : CStr, var.value.text percentF = some text ∧ t.bytes = unquoted text ∧ pvalue.Holds t

variable {percentF}

theorem unquoted_percentD (z : ℤ) : unquoted (percentD z) = (percentD z).bytes := by
  refine if_neg fun h => ?_
  have hmem : '\''.toUInt8 ∈ decimalBytes z := by
    rw [← percentD_bytes]
    exact List.mem_of_mem_head? h.1
  exact notMem_decimalBytes (by decide) (by decide) hmem

theorem percentD_ne_null (z : ℤ) : percentD z ≠ .lit "NULL" := by
  intro h
  have hmem : 'N'.toUInt8 ∈ decimalBytes z := by
    rw [← percentD_bytes, h]
    decide
  exact notMem_decimalBytes (by decide) (by decide) hmem

theorem quoted_bytes (s : CStr) :
    (quoted [s]).bytes = '\''.toUInt8 :: (s.bytes ++ ['\''.toUInt8]) := by
  have hquote : (CStr.lit "'").bytes = ['\''.toUInt8] := by decide
  simp [quoted, concat, hquote]

theorem unquoted_quoted (s : CStr) : unquoted (quoted [s]) = s.bytes := by
  rw [unquoted, quoted_bytes, if_pos]
  · rw [List.tail_cons, List.dropLast_concat]
  · rw [List.head?_cons, ← List.cons_append, List.getLast?_concat]
    exact ⟨rfl, rfl⟩

theorem quoted_ne_null (s : CStr) : quoted [s] ≠ .lit "NULL" := by
  intro h
  have hhead := congrArg (fun t : CStr => t.bytes.head?) h
  rw [quoted_bytes, List.head?_cons] at hhead
  exact absurd hhead (by decide)

/-- What one parameter is, on both paths: what is printed, and what a buffer gets when it is
converted. -/
theorem BindValue.Plain.text (percentF : F → CStr) {v : BindValue F} (h : v.Plain) :
    ∃ text t : CStr, v.text percentF = some text ∧ text ≠ .lit "NULL" ∧ t.bytes = unquoted text ∧
      ∀ pvalue, (setPValue percentF ⟨v, Option.none⟩ pvalue).Holds t := by
  have hint : ∀ {z : ℤ}, z.natAbs < 10 ^ 20 → ∀ pvalue : PValue,
      (pvalue.snprintf (percentD z)).Holds (percentD z) := fun hz pvalue =>
    Block.holds_snprintf pvalue ((length_percentD_le hz).trans_lt (by decide))
  cases v with
  | none | float | double | time | date | datetime | timestamp => exact h.elim
  | tinyint v =>
    have hlo := Int8.le_toInt v
    have hhi := Int8.toInt_lt v
    exact ⟨_, _, rfl, percentD_ne_null _, (unquoted_percentD _).symm, hint (by omega)⟩
  | smallint v =>
    have hlo := Int16.le_toInt v
    have hhi := Int16.toInt_lt v
    exact ⟨_, _, rfl, percentD_ne_null _, (unquoted_percentD _).symm, hint (by omega)⟩
  | int v =>
    have hlo := Int32.le_toInt v
    have hhi := Int32.toInt_lt v
    exact ⟨_, _, rfl, percentD_ne_null _, (unquoted_percentD _).symm, hint (by omega)⟩
  | bigint v =>
    have hlo := Int64.le_toInt v
    have hhi := Int64.toInt_lt v
    exact ⟨_, _, rfl, percentD_ne_null _, (unquoted_percentD _).symm, hint (by omega)⟩
  | char s | varchar s =>
    exact ⟨_, s, rfl, quoted_ne_null s, (unquoted_quoted s).symm, fun pvalue =>
      Block.holds_strncpy pvalue h⟩

/-- One parameter. -/
theorem agrees_iff_converted {var : Bind F} (h : var.value.Plain) (pvalue : PValue) :
    (∃ text, dbPrintValue percentF var = some text ∧
      Agrees (some (setPValue percentF var pvalue)) text) ↔ Converted percentF var pvalue := by
  obtain ⟨v, isNull⟩ := var
  obtain ⟨text, t, htext, hne, ht, hset⟩ := h.text percentF
  dsimp only at htext hset
  cases isNull with
  | none => exact iff_of_true ⟨text, htext, hne, t, ht, hset pvalue⟩ (.inl rfl)
  | some b =>
    cases b with
    | true =>
      refine iff_of_false ?_ ?_
      · rintro ⟨printed, hprinted, hagrees⟩
        exact hagrees.1 (Option.some.inj hprinted).symm
      · rintro (h | h)
        · exact absurd h (by simp)
        · exact absurd h.1 (by simp)
    | false =>
      have hprint : dbPrintValue percentF ⟨v, some false⟩ = some text := htext
      constructor
      · rintro ⟨printed, hprinted, hagrees⟩
        obtain rfl := Option.some.inj (hprint.symm.trans hprinted)
        obtain ⟨-, t', ht', hholds⟩ := hagrees
        exact .inr ⟨rfl, text, t', htext, ht', hholds⟩
      · rintro (h | ⟨-, text', t', htext', ht', hholds⟩)
        · exact absurd h (by simp)
        · obtain rfl := Option.some.inj (htext.symm.trans htext')
          exact ⟨text, hprint, hne, t', ht', hholds⟩

theorem forall₂_agrees_iff : ∀ {binds : List (Bind F)} {pvalues : List PValue},
    binds.length = pvalues.length → (∀ var ∈ binds, var.value.Plain) →
    (List.Forall₂ (fun sent var => ∃ text, dbPrintValue percentF var = some text ∧ Agrees sent text)
      ((binds.zipWith (setPValue percentF) pvalues).map some) binds ↔
      List.Forall₂ (Converted percentF) binds pvalues)
  | [], [], _, _ => iff_of_true .nil .nil
  | var :: binds, pvalue :: pvalues, hlen, hplain => by
    rw [List.forall_mem_cons] at hplain
    rw [List.zipWith_cons_cons, List.map_cons, List.forall₂_cons, List.forall₂_cons]
    exact and_congr (agrees_iff_converted hplain.1 pvalue)
      (forall₂_agrees_iff (Nat.succ.inj hlen) hplain.2)

/-- **The paths agree exactly when every parameter is converted**: there is no indicator, or a clear
one and the buffer holds the text from before. -/
theorem pathsAgree_iff (percentF : F → CStr) (stmt : PgStmt F) (query : List UInt8)
    (hready : stmt.Ready) (hquery : query.count '?'.toUInt8 = stmt.nparams)
    (hplain : ∀ var ∈ stmt.boundParam, var.value.Plain) :
    (PathsAgree percentF stmt ↔
      List.Forall₂ (Converted percentF) stmt.boundParam stmt.pvalues) ∧
    emulatedQuery percentF query stmt.boundParam
      = splice (query.splitOn '?'.toUInt8) (stmt.boundParam.map (printed percentF)) :=
  ⟨forall₂_agrees_iff (hready.bound.trans hready.allocated.symm) hplain,
    emulatedQuery_eq percentF (hready.bound.trans hquery.symm)⟩

end Paths

/-- A statement with one parameter, prepared a moment ago: the number 5. -/
def oneParam (isNull : Option Bool) : PgStmt Empty :=
  ⟨1, true, [Block.zero _], [⟨.int 5, isNull⟩]⟩

theorem pathsAgree_oneParam : PathsAgree Empty.elim (oneParam none) := by
  have hbind : pgsqlDrvBindParam true (fun _ => Block.zero _) (⟨1, false, [], []⟩ : PgStmt Empty)
      [⟨.int 5, none⟩] = (oneParam none, true) := rfl
  have hready : (oneParam none).Ready :=
    ready_pgsqlDrvBindParam (fun h => absurd h Bool.false_ne_true) rfl hbind
  refine (pathsAgree_iff Empty.elim (oneParam none) ['?'.toUInt8] hready (by decide)
    fun var hvar => ?_).1.mpr (.cons (.inl rfl) .nil)
  obtain rfl := List.mem_singleton.mp hvar
  trivial

/-- With an indicator that is clear the 5 is printed, and not passed; with one that is set `NULL` is
printed, and a pointer passed. -/
theorem not_pathsAgree_oneParam :
    ¬ PathsAgree Empty.elim (oneParam (some false)) ∧
    ¬ PathsAgree Empty.elim (oneParam (some true)) := by
  constructor
  · rintro (_ | ⟨⟨text, htext, -, t, ht, hholds⟩, -⟩)
    obtain rfl := Option.some.inj htext
    rw [Block.Holds, ht] at hholds
    exact absurd hholds (by decide)
  · rintro (_ | ⟨⟨text, htext, hne, -⟩, -⟩)
    exact hne (Option.some.inj htext).symm

end Sysbench.Database
