import Sysbench.Database.Binds

/-!
# Scripting/LuaBinds — the parameters of a prepared statement, from a Lua table to the driver

`db_bind_param` notes which keys of the table are parameters.  Each `db_execute` copies the entries
into buffers and indicators; the driver has pointers to these, in the array last passed to its
`bind_param`.  A new array is passed only when a string is longer than the one before it: until
then a parameter keeps the pointers it got from the table of that time, when it may have been nil
and is not now, or the other way round.
-/

namespace Sysbench.Scripting

open Database

/-! ## Tables and parameters -/

/-- The type of an entry of the table at `db_bind_param`. -/
inductive SlotType
  | number
  | string
  deriving DecidableEq, Repr

/-- An entry of the table at `db_bind_param`: its key and its type. -/
structure Slot where
  id : ℤ
  type : SlotType

/-- What a table holds, under the keys that were numbers and under those that were strings; `none`
is nil. -/
structure Table where
  number : ℤ → Option Int32
  string : ℤ → Option (List UInt8)

/-- A block of characters from `realloc`; `place` tells the blocks of one parameter apart. -/
structure Chars where
  place : ℕ
  bytes : List UInt8

/-- `sb_lua_bind_t`.  The buffer of a number is allocated once, and there is nothing in it at
first. -/
inductive Param
  | number (id : ℤ) (buf : Option Int32) (isNull : Bool)
  | string (id : ℤ) (buf : Option Chars) (buflen : ℕ) (isNull : Bool)

/-- `param->is_null`. -/
def Param.isNull : Param → Bool
  | .number _ _ isNull | .string _ _ _ isNull => isNull

/-- `db_bind_t`: pointers into one parameter.  `buffer` is the place it points to, `dataLen` and
`isNull` are whether the pointers are there; `max_len` is 0 in all of them. -/
structure ParamBind where
  buffer : Option ℕ
  dataLen : Bool
  isNull : Bool

/-- `sb_lua_db_stmt_t`, with the array last passed to `db_bind_param`. -/
structure LuaStmt where
  params : List Param
  binds : Option (List ParamBind)

/-! ## `db_bind_param` and `db_execute` -/

/-- A parameter as `sb_lua_db_bind_param` leaves it. -/
def Slot.param (slot : Slot) : Param :=
  match slot.type with
  | .number => .number slot.id none false
  | .string => .string slot.id none 0 false

/-- A string is among the parameters. -/
def needsRebind (slots : List Slot) : Bool := slots.any (·.type = .string)

/-- `sb_lua_db_bind_param`; with a string among the parameters, nothing is bound yet. -/
def sbLuaDbBindParam (slots : List Slot) : LuaStmt where
  params := slots.map Slot.param
  binds := if needsRebind slots then none else some (slots.map fun _ => ⟨some 0, false, true⟩)

section Execute

variable (stays : ℕ → ℕ → Bool)

/-- `realloc(buf, length)`: the block may stay where it is.  What is behind the old bytes is not
determined; all `length` bytes are written next. -/
def realloc (buf : Option Chars) (length : ℕ) : Chars :=
  match buf with
  | none => ⟨0, List.replicate length 0⟩
  | some chars =>
    ⟨if stays chars.bytes.length length then chars.place else chars.place + 1,
      chars.bytes.take length ++ List.replicate (length - chars.bytes.length) 0⟩

/-- `strncpy(buf, str, length)` for a Lua string of that length: it ends at the first NUL and is
filled up with NULs, and what is behind in the buffer stays. -/
def strncpyChars (str : List UInt8) (chars : Chars) : Chars :=
  ⟨chars.place, ((CStr.ofBytes str).padded str.length).1 ++ chars.bytes.drop str.length⟩

/-- One parameter in the first loop of `sb_lua_db_execute`, and whether it needs a rebind. -/
def setParam (t : Table) : Param → Param × Bool
  | .number id buf _ =>
    match t.number id with
    | none => (.number id buf true, false)
    | some v => (.number id (some v) false, false)
  | .string id buf buflen _ =>
    match t.string id with
    | none => (.string id buf buflen true, false)
    | some str =>
      if buflen < str.length then
        (.string id (some (strncpyChars str (realloc stays buf str.length))) str.length false, true)
      else (.string id (buf.map (strncpyChars str)) str.length false, false)

/-- One element of the array built by `sb_lua_db_execute`. -/
def rebind : Param → ParamBind
  | .number _ _ isNull => ⟨if isNull then none else some 0, false, true⟩
  | .string _ buf _ isNull =>
    if isNull then ⟨none, false, true⟩ else ⟨buf.map (·.place), true, false⟩

/-- `sb_lua_db_execute`, up to the call of `db_execute`. -/
def sbLuaDbExecute (stmt : LuaStmt) (t : Table) : LuaStmt :=
  let params := stmt.params.map fun p => (setParam stays t p).1
  ⟨params, if stmt.params.any fun p => (setParam stays t p).2 then some (params.map rebind)
    else stmt.binds⟩

/-- The statement after executions with these tables. -/
def executions (slots : List Slot) (tables : List Table) : LuaStmt :=
  tables.foldl (sbLuaDbExecute stays) (sbLuaDbBindParam slots)

end Execute

/-! ## What the driver reads -/

/-- A parameter as a driver sees it. -/
inductive Value
  | null
  | int (v : Int32)
  | string (str : List UInt8)
  deriving DecidableEq

/-- The block a pointer leads to: a block that has moved is gone. -/
def blockAt (buf : Option Chars) (place : ℕ) : Option (List UInt8) :=
  buf.bind fun chars => if chars.place = place then some chars.bytes else none

/-- What a driver with server-side statements reads; `none` is a read through a null pointer, of a
block that is gone, or of more than there is.  Without `data_len` a string has the length
`max_len`. -/
def serverRead (b : ParamBind) (p : Param) : Option Value :=
  if b.isNull && p.isNull then some .null
  else match p, b.buffer with
    | .number _ buf _, some _ => buf.map .int
    | .number .., none => none
    | .string _ _ buflen _, none => if b.dataLen && buflen ≠ 0 then none else some (.string [])
    | .string _ buf buflen _, some place =>
      (blockAt buf place).bind fun bytes =>
        let length := if b.dataLen then buflen else 0
        if length ≤ bytes.length then some (.string (bytes.take length)) else none

/-- What `db_print_value` prints in the emulated path; a string ends at its terminator, and a block
without one is read past its end. -/
def emulatedRead (b : ParamBind) (p : Param) : Option (List UInt8) :=
  let isNull := if b.isNull then some p.isNull else none
  let value : Option (BindValue Empty) :=
    match p, b.buffer with
    | .number _ buf _, some _ => buf.map .int
    | .string _ buf _ _, some place => (blockAt buf place).bind fun bytes =>
        if 0 ∈ bytes then some (.char (.ofBytes bytes)) else none
    | _, none => none
  if isNull = some true then some (CStr.lit "NULL").bytes
  else value.map fun v => printed Empty.elim ⟨v, isNull⟩

/-- The entry of a table. -/
def Table.entry (t : Table) (slot : Slot) : Value :=
  match slot.type with
  | .number => (t.number slot.id).elim .null .int
  | .string => (t.string slot.id).elim .null .string

/-- An entry in the text of a query. -/
def Value.sql : Value → List UInt8
  | .null => (CStr.lit "NULL").bytes
  | .int v => (percentD v.toInt).bytes
  | .string str => '\''.toUInt8 :: (str ++ ['\''.toUInt8])

/-! ## The parameters after some executions

The last table stands first. -/

/-- The length of the last string under a key; at first it is 0. -/
def lastLength (id : ℤ) : List Table → ℕ
  | [] => 0
  | t :: earlier => (t.string id).elim (lastLength id earlier) List.length

/-- The string of this slot is longer than the one before it. -/
def slotGrows (earlier : List Table) (t : Table) (slot : Slot) : Bool :=
  slot.type = .string && (t.string slot.id).any (lastLength slot.id earlier < ·.length)

/-- Some string is longer than the one before it. -/
def grows (slots : List Slot) (earlier : List Table) (t : Table) : Bool :=
  slots.any (slotGrows earlier t)

/-- A table without nil. -/
def fullTable : Table := ⟨fun _ => some 0, fun _ => some []⟩

/-- The table at the time of the last bind: the last with a string that had grown.  Without strings
among the parameters they are bound once, as for a table without nil. -/
def boundTable (slots : List Slot) : List Table → Option Table
  | [] => if needsRebind slots then none else some fullTable
  | t :: earlier => if grows slots earlier t then some t else boundTable slots earlier

section After

variable (stays : ℕ → ℕ → Bool)

/-- The statement after the executions. -/
def stmtAfter (slots : List Slot) (history : List Table) : LuaStmt :=
  history.foldr (fun t stmt => sbLuaDbExecute stays stmt t) (sbLuaDbBindParam slots)

/-- The number in a buffer. -/
def numberAfter (id : ℤ) : List Table → Option Int32
  | [] => none
  | t :: earlier => (t.number id).or (numberAfter id earlier)

/-- The buffer of a string. -/
def charsAfter (id : ℤ) : List Table → Option Chars
  | [] => none
  | t :: earlier => match t.string id with
    | none => charsAfter id earlier
    | some str =>
      if lastLength id earlier < str.length then
        some (strncpyChars str (realloc stays (charsAfter id earlier) str.length))
      else (charsAfter id earlier).map (strncpyChars str)

/-- A parameter after the executions. -/
def paramAfter (history : List Table) (slot : Slot) : Param :=
  match slot.type with
  | .number => .number slot.id (numberAfter slot.id history)
      (history.head?.any fun t => (t.number slot.id).isNone)
  | .string => .string slot.id (charsAfter stays slot.id history) (lastLength slot.id history)
      (history.head?.any fun t => (t.string slot.id).isNone)

/-- What is bound for a parameter, when `b` was the table at the last bind. -/
def bindAfter (b : Table) (history : List Table) (slot : Slot) : ParamBind :=
  match slot.type with
  | .number => ⟨if (b.number slot.id).isNone then none else some 0, false, true⟩
  | .string =>
    if (b.string slot.id).isNone then ⟨none, false, true⟩
    else ⟨(charsAfter stays slot.id history).map (·.place), true, false⟩

variable {stays}

theorem setParam_paramAfter (earlier : List Table) (t : Table) (slot : Slot) :
    setParam stays t (paramAfter stays earlier slot)
      = (paramAfter stays (t :: earlier) slot, slotGrows earlier t slot) := by
  obtain ⟨id, type⟩ := slot
  cases type with
  | number => cases h : t.number id <;> simp [setParam, paramAfter, numberAfter, slotGrows, h]
  | string =>
    cases h : t.string id with
    | none => simp [setParam, paramAfter, charsAfter, lastLength, slotGrows, h]
    | some str =>
      by_cases hgrows : lastLength id earlier < str.length <;>
        simp [setParam, paramAfter, charsAfter, lastLength, slotGrows, h, hgrows]

/-- A string that has not grown is where it was. -/
theorem place_charsAfter {earlier : List Table} {t : Table} {slot : Slot}
    (hstring : slot.type = .string) (h : slotGrows earlier t slot = false) :
    (charsAfter stays slot.id (t :: earlier)).map (·.place)
      = (charsAfter stays slot.id earlier).map (·.place) := by
  rw [charsAfter]
  cases hstr : t.string slot.id with
  | none => rfl
  | some str =>
    have hlen : ¬ lastLength slot.id earlier < str.length := by
      simpa [slotGrows, hstring, hstr] using h
    dsimp only
    rw [if_neg hlen, Option.map_map]
    rfl

theorem param_eq (slot : Slot) : slot.param = paramAfter stays [] slot := by
  obtain ⟨id, type⟩ := slot
  cases type <;> rfl

theorem type_eq_number {slots : List Slot} (h : needsRebind slots = false) {slot : Slot}
    (hslot : slot ∈ slots) : slot.type = .number := by
  have hne : slot.type ≠ .string := by simpa using List.any_eq_false.mp h slot hslot
  cases htype : slot.type with
  | number => rfl
  | string => exact absurd htype hne

theorem rebind_paramAfter (earlier : List Table) (t : Table) (slot : Slot) :
    rebind (paramAfter stays (t :: earlier) slot) = bindAfter stays t (t :: earlier) slot := by
  obtain ⟨id, type⟩ := slot
  cases type <;> rfl

theorem bindAfter_cons {earlier : List Table} {t : Table} {slot : Slot}
    (h : slotGrows earlier t slot = false) (b : Table) :
    bindAfter stays b (t :: earlier) slot = bindAfter stays b earlier slot := by
  unfold bindAfter
  cases htype : slot.type with
  | number => rfl
  | string =>
    dsimp only
    rw [place_charsAfter htype h]

/-- **What a statement is after the executions.** -/
theorem stmtAfter_eq (slots : List Slot) : ∀ history : List Table,
    stmtAfter stays slots history = ⟨slots.map (paramAfter stays history),
      (boundTable slots history).map fun b => slots.map (bindAfter stays b history)⟩
  | [] => by
    have hbinds : (sbLuaDbBindParam slots).binds
        = (boundTable slots []).map fun b => slots.map (bindAfter stays b []) := by
      rw [sbLuaDbBindParam, boundTable]
      split_ifs with hrebind
      · rfl
      · rw [Bool.not_eq_true] at hrebind
        refine congrArg some (List.map_congr_left fun slot hslot => ?_)
        rw [bindAfter, type_eq_number hrebind hslot]
        rfl
    have hparams : (sbLuaDbBindParam slots).params = slots.map (paramAfter stays []) :=
      List.map_congr_left fun slot _ => param_eq slot
    rw [← hbinds, ← hparams]
    rfl
  | t :: earlier => by
    have hstep : stmtAfter stays slots (t :: earlier)
        = sbLuaDbExecute stays (stmtAfter stays slots earlier) t := rfl
    have hgrows : (slots.any fun slot => slotGrows earlier t slot) = grows slots earlier t := rfl
    rw [hstep, stmtAfter_eq slots earlier, sbLuaDbExecute]
    simp only [List.map_map, List.any_map, Function.comp_def, setParam_paramAfter, hgrows]
    rw [boundTable]
    split_ifs with h
    · simp only [rebind_paramAfter, Option.map_some]
    · rw [Bool.not_eq_true, grows, List.any_eq_false] at h
      have hbind : ∀ b, slots.map (bindAfter stays b (t :: earlier))
          = slots.map (bindAfter stays b earlier) := fun b =>
        List.map_congr_left fun slot hslot =>
          bindAfter_cons (Bool.eq_false_iff.mpr (h slot hslot)) b
      simp only [hbind]

/-! ## The buffers -/

/-- The buffer has room for the last string; there is none as long as all were empty. -/
theorem length_charsAfter (stays : ℕ → ℕ → Bool) (id : ℤ) : ∀ history : List Table,
    (charsAfter stays id history).elim (lastLength id history = 0) fun chars =>
      lastLength id history ≤ chars.bytes.length
  | [] => rfl
  | t :: earlier => by
    have ih := length_charsAfter stays id earlier
    rw [charsAfter, lastLength]
    cases hstr : t.string id with
    | none => exact ih
    | some str =>
      dsimp only [Option.elim]
      split_ifs with hgrows
      · dsimp only [strncpyChars]
        rw [List.length_append, (CStr.padded _ _).2]
        exact Nat.le_add_right _ _
      · cases hchars : charsAfter stays id earlier with
        | none =>
          rw [hchars] at ih
          exact Nat.le_zero.mp (ih ▸ not_lt.mp hgrows)
        | some chars =>
          dsimp only [Option.map, strncpyChars]
          rw [List.length_append, (CStr.padded _ _).2]
          exact Nat.le_add_right _ _

/-- The buffer begins with what `strncpy` made of the last string. -/
theorem take_charsAfter {id : ℤ} {earlier : List Table} {t : Table} {str : List UInt8}
    {chars : Chars} (hstr : t.string id = some str)
    (hchars : charsAfter stays id (t :: earlier) = some chars) :
    chars.bytes.take str.length = ((CStr.ofBytes str).padded str.length).1 := by
  have htake : ∀ chars : Chars, (strncpyChars str chars).bytes.take str.length
      = ((CStr.ofBytes str).padded str.length).1 := fun chars =>
    List.take_left' ((CStr.ofBytes str).padded str.length).2
  rw [charsAfter, hstr] at hchars
  dsimp only at hchars
  split_ifs at hchars
  · exact Option.some.inj hchars ▸ htake _
  · obtain ⟨old, -, rfl⟩ := Option.map_eq_some_iff.mp hchars
    exact htake old

/-- Behind the first NUL there are only NULs. -/
def NulsAtEnd (str : List UInt8) : Prop := ∀ c ∈ str.dropWhile (· ≠ 0), c = 0

/-- `strncpy` keeps such a string, and no other. -/
theorem padded_eq_iff (str : List UInt8) :
    ((CStr.ofBytes str).padded str.length).1 = str ↔ NulsAtEnd str := by
  have hsplit := List.takeWhile_append_dropWhile (p := (· ≠ (0 : UInt8))) (l := str)
  have hlen : str.length - (str.takeWhile (· ≠ 0)).length = (str.dropWhile (· ≠ 0)).length := by
    have := congrArg List.length hsplit
    rw [List.length_append] at this
    omega
  have hpadded : ((CStr.ofBytes str).padded str.length).1
      = str.takeWhile (· ≠ 0) ++ List.replicate (str.dropWhile (· ≠ 0)).length 0 := by
    rw [← hlen]
    exact congrArg (· ++ _) (List.take_of_length_le (List.takeWhile_prefix _).length_le)
  rw [hpadded]
  nth_rewrite 3 [← hsplit]
  rw [List.append_right_inj, eq_comm, List.eq_replicate_iff]
  exact and_iff_right rfl

/-! ## Reading the entries -/

/-- The driver reads the entries of the table, position by position. -/
def ReadsEntries {α : Type} (read : ParamBind → Param → Option α) (shown : Value → α)
    (stmt : LuaStmt) (slots : List Slot) (t : Table) : Prop :=
  ∃ binds, stmt.binds = some binds ∧
    List.Forall₂ (fun slot (x : ParamBind × Param) => read x.1 x.2 = some (shown (t.entry slot)))
      slots (binds.zip stmt.params)

/-- A slot is read right, `b` being the table at the last bind: a number that is there was there
then; a string is nil just when it was then, or empty where it was nil; and it has no other
character behind a NUL. -/
def SlotKept (b t : Table) (slot : Slot) : Prop :=
  match slot.type with
  | .number => (t.number slot.id).isSome → (b.number slot.id).isSome
  | .string => match t.string slot.id with
    | none => b.string slot.id = none
    | some str => ((b.string slot.id).isSome ∨ str = []) ∧ NulsAtEnd str

theorem readsEntries_iff {α : Type} {read : ParamBind → Param → Option α} {shown : Value → α}
    {slots : List Slot} {earlier : List Table} {t : Table} :
    ReadsEntries read shown (stmtAfter stays slots (t :: earlier)) slots t ↔
      ∃ b, boundTable slots (t :: earlier) = some b ∧ ∀ slot ∈ slots,
        read (bindAfter stays b (t :: earlier) slot) (paramAfter stays (t :: earlier) slot)
          = some (shown (t.entry slot)) := by
  rw [ReadsEntries, stmtAfter_eq]
  dsimp only
  constructor
  · rintro ⟨binds, hbinds, h⟩
    obtain ⟨b, hb, rfl⟩ := Option.map_eq_some_iff.mp hbinds
    rw [List.zip_map', List.forall₂_map_right_iff, List.forall₂_same] at h
    exact ⟨b, hb, h⟩
  · rintro ⟨b, hb, h⟩
    refine ⟨_, Option.map_eq_some_iff.mpr ⟨b, hb, rfl⟩, ?_⟩
    rw [List.zip_map', List.forall₂_map_right_iff, List.forall₂_same]
    exact h

theorem serverRead_number_iff (b t : Table) (earlier : List Table) (id : ℤ) :
    serverRead (bindAfter stays b (t :: earlier) ⟨id, .number⟩)
      (paramAfter stays (t :: earlier) ⟨id, .number⟩) = some (t.entry ⟨id, .number⟩) ↔
      SlotKept b t ⟨id, .number⟩ := by
  cases ht : t.number id with
  | none =>
    simp [serverRead, bindAfter, paramAfter, Table.entry, SlotKept, Param.isNull, ht]
  | some v =>
    cases hb : b.number id <;>
      simp [serverRead, bindAfter, paramAfter, Table.entry, SlotKept, Param.isNull, numberAfter, ht,
        hb]

/-- A string that was bound with its buffer and its length. -/
theorem serverRead_bound (id : ℤ) (buf : Option Chars) (buflen : ℕ) (isNull : Bool) :
    serverRead ⟨buf.map (·.place), true, false⟩ (.string id buf buflen isNull)
      = buf.elim (if buflen = 0 then some (.string []) else none) fun chars =>
        if buflen ≤ chars.bytes.length then some (.string (chars.bytes.take buflen)) else none := by
  cases buf <;> simp [serverRead, blockAt]

theorem nulsAtEnd_nil : NulsAtEnd [] := fun _ h => absurd h List.not_mem_nil

/-- A string that was in the table when the parameters were bound. -/
theorem serverRead_boundString_iff {b t : Table} {id : ℤ} {old : List UInt8}
    (hb : b.string id = some old) (earlier : List Table) :
    serverRead (bindAfter stays b (t :: earlier) ⟨id, .string⟩)
      (paramAfter stays (t :: earlier) ⟨id, .string⟩) = some (t.entry ⟨id, .string⟩) ↔
      SlotKept b t ⟨id, .string⟩ := by
  have hbind : bindAfter stays b (t :: earlier) ⟨id, .string⟩
      = ⟨(charsAfter stays id (t :: earlier)).map (·.place), true, false⟩ := by
    simp [bindAfter, hb]
  rw [hbind, paramAfter, serverRead_bound]
  cases ht : t.string id with
  | none =>
    -- Whatever is read, it is not `NULL`.
    cases charsAfter stays id (t :: earlier) <;> simp [SlotKept, Table.entry, ht, hb]
  | some str =>
    have hlen := length_charsAfter stays id (t :: earlier)
    have hlast : lastLength id (t :: earlier) = str.length := by rw [lastLength, ht]; rfl
    rw [hlast] at hlen ⊢
    cases hchars : charsAfter stays id (t :: earlier) with
    | none =>
      rw [hchars] at hlen
      obtain rfl := List.length_eq_zero_iff.mp hlen
      simp [SlotKept, Table.entry, ht, hb, nulsAtEnd_nil]
    | some chars =>
      have hle : str.length ≤ chars.bytes.length := by rwa [hchars] at hlen
      have hread : some (Value.string (chars.bytes.take str.length)) = some (.string str) ↔
          NulsAtEnd str := by
        rw [take_charsAfter ht hchars, Option.some.injEq, Value.string.injEq, padded_eq_iff]
      simpa [SlotKept, Table.entry, ht, hb, hle] using hread

theorem serverRead_string_iff (b t : Table) (earlier : List Table) (id : ℤ) :
    serverRead (bindAfter stays b (t :: earlier) ⟨id, .string⟩)
      (paramAfter stays (t :: earlier) ⟨id, .string⟩) = some (t.entry ⟨id, .string⟩) ↔
      SlotKept b t ⟨id, .string⟩ := by
  cases hb : b.string id with
  | some old => exact serverRead_boundString_iff hb earlier
  | none =>
    -- Only the indicator is bound.
    cases ht : t.string id with
    | none => simp [serverRead, bindAfter, paramAfter, Table.entry, SlotKept, Param.isNull, ht, hb]
    | some str =>
      have hempty : [] = str ↔ str = [] ∧ NulsAtEnd str :=
        ⟨fun h => ⟨h.symm, h ▸ nulsAtEnd_nil⟩, fun h => h.1.symm⟩
      simpa [serverRead, bindAfter, paramAfter, Table.entry, SlotKept, Param.isNull, ht, hb]
        using hempty

/-- **One execution on the server side.** -/
theorem readsEntries_server_iff {slots : List Slot} {earlier : List Table} {t : Table} :
    ReadsEntries serverRead id (stmtAfter stays slots (t :: earlier)) slots t ↔
      ∃ b, boundTable slots (t :: earlier) = some b ∧ ∀ slot ∈ slots, SlotKept b t slot := by
  rw [readsEntries_iff]
  refine exists_congr fun b => and_congr_right fun _ => forall₂_congr fun slot _ => ?_
  obtain ⟨id, type⟩ := slot
  cases type with
  | number => exact serverRead_number_iff b t earlier id
  | string => exact serverRead_string_iff b t earlier id

/-! ## The emulated path -/

/-- What `%s` prints of a block is shorter than the block, if it ends in it. -/
theorem length_ofBytes_lt {bytes : List UInt8} (h : 0 ∈ bytes) :
    (CStr.ofBytes bytes).length < bytes.length := by
  refine lt_of_le_of_ne (List.takeWhile_prefix _).length_le fun hlen => ?_
  have hall : (CStr.ofBytes bytes).bytes = bytes := (List.takeWhile_prefix _).eq_of_length hlen
  exact (CStr.ofBytes bytes).noNul (hall.symm ▸ h)

/-- **A block that has just been allocated is not terminated**: it has room for the string and no
more. -/
theorem emulatedRead_grown_ne {t : Table} {slot : Slot} (hgrows : slotGrows [] t slot = true) :
    emulatedRead (bindAfter stays t [t] slot) (paramAfter stays [t] slot)
      ≠ some (t.entry slot).sql := by
  obtain ⟨id, type⟩ := slot
  rw [slotGrows, Bool.and_eq_true, decide_eq_true_eq] at hgrows
  obtain ⟨rfl, hany⟩ := hgrows
  obtain ⟨str, ht, hpos⟩ := (Option.any_eq_true _ _).mp hany
  set chars := strncpyChars str (realloc stays none str.length) with hchars
  have hlen : chars.bytes.length = str.length := by
    simp [hchars, strncpyChars, realloc, (CStr.padded _ _).2]
  have hafter : charsAfter stays id [t] = some chars := by
    rw [charsAfter, ht]
    exact if_pos (of_decide_eq_true hpos)
  have hread : emulatedRead (bindAfter stays t [t] ⟨id, .string⟩)
      (paramAfter stays [t] ⟨id, .string⟩)
      = if 0 ∈ chars.bytes then some (quoted [.ofBytes chars.bytes]).bytes else none := by
    simp only [emulatedRead, bindAfter, paramAfter, hafter, ht, blockAt]
    split_ifs <;> simp_all [printed, dbPrintValue, BindValue.text]
  have hentry : (t.entry ⟨id, .string⟩).sql = '\''.toUInt8 :: (str ++ ['\''.toUInt8]) := by
    simp [Table.entry, ht, Value.sql]
  rw [hread, hentry]
  split_ifs with hnul
  · rw [quoted_bytes]
    intro h
    have hbytes := List.append_cancel_right (List.cons.inj (Option.some.inj h)).2
    exact (length_ofBytes_lt hnul).ne ((congrArg List.length hbytes).trans hlen.symm)
  · exact Option.some_ne_none _ ∘ Eq.symm

theorem emulatedRead_number (t : Table) (earlier : List Table) {slot : Slot}
    (hslot : slot.type = .number) :
    emulatedRead (bindAfter stays fullTable (t :: earlier) slot)
      (paramAfter stays (t :: earlier) slot) = some (t.entry slot).sql := by
  obtain ⟨id, type⟩ := slot
  obtain rfl : type = .number := hslot
  cases ht : t.number id <;>
    simp [emulatedRead, bindAfter, paramAfter, Table.entry, Value.sql, Param.isNull, numberAfter,
      ht, fullTable, printed, dbPrintValue, BindValue.text]

theorem boundTable_of_numbers {slots : List Slot} (h : needsRebind slots = false) :
    ∀ history : List Table, boundTable slots history = some fullTable
  | [] => by rw [boundTable, h]; rfl
  | t :: earlier => by
    have hgrows : grows slots earlier t = false := by
      refine List.any_eq_false.mpr fun slot hslot => ?_
      simp [slotGrows, type_eq_number h hslot]
    rw [boundTable, hgrows, if_neg Bool.false_ne_true, boundTable_of_numbers h earlier]

/-- **The emulated path reads no string right.** -/
theorem readsEntries_emulated_iff {slots : List Slot} {tables : List Table} :
    (∀ (earlier : List Table) t later, tables = earlier ++ t :: later →
      ReadsEntries emulatedRead Value.sql (stmtAfter stays slots (t :: earlier.reverse)) slots t) ↔
      tables = [] ∨ needsRebind slots = false := by
  constructor
  · intro h
    by_contra hne
    rw [not_or, Bool.not_eq_false] at hne
    -- The first execution binds a string that has just grown, or nothing is bound.
    obtain ⟨t, later, rfl⟩ := List.exists_cons_of_ne_nil hne.1
    obtain ⟨b, hb, hread⟩ := readsEntries_iff.mp (h [] t later rfl)
    rw [List.reverse_nil, boundTable, boundTable, if_pos hne.2] at hb
    split_ifs at hb with hgrows
    obtain rfl := Option.some.inj hb
    obtain ⟨slot, hslot, hslotGrows⟩ := List.any_eq_true.mp hgrows
    exact emulatedRead_grown_ne hslotGrows (hread slot hslot)
  · rintro (rfl | hnumbers) earlier t later htables
    · exact absurd htables (by simp)
    · refine readsEntries_iff.mpr ⟨fullTable, boundTable_of_numbers hnumbers _, ?_⟩
      exact fun slot hslot => emulatedRead_number t _ (type_eq_number hnumbers hslot)

theorem executions_eq (slots : List Slot) (earlier : List Table) (t : Table) :
    executions stays slots (earlier ++ [t]) = stmtAfter stays slots (t :: earlier.reverse) := by
  rw [executions, ← List.reverse_reverse (earlier ++ [t]), List.foldl_reverse, List.reverse_concat]
  rfl

variable (stays)

/-- **When a driver reads what the table holds.**  Server-side: at every execution something has
been bound, and each slot is as it was in the table at the last bind.  Emulated: there are no
strings. -/
theorem driver_reads_iff (slots : List Slot) (tables : List Table) :
    ((∀ earlier t later, tables = earlier ++ t :: later →
      ReadsEntries serverRead id (executions stays slots (earlier ++ [t])) slots t) ↔
      ∀ earlier t later, tables = earlier ++ t :: later →
        ∃ b, boundTable slots (t :: earlier.reverse) = some b ∧ ∀ slot ∈ slots, SlotKept b t slot) ∧
    ((∀ earlier t later, tables = earlier ++ t :: later →
      ReadsEntries emulatedRead Value.sql (executions stays slots (earlier ++ [t])) slots t) ↔
      tables = [] ∨ needsRebind slots = false) := by
  simp only [executions_eq, readsEntries_server_iff, readsEntries_emulated_iff, and_self]

end After

/-- A string, and then nil: the driver reads the string once more. -/
theorem driver_reads_old_string :
    ¬ ∀ earlier t later,
      [(⟨fun _ => none, fun _ => some [97, 98]⟩ : Table), ⟨fun _ => none, fun _ => none⟩]
        = earlier ++ t :: later →
      ReadsEntries serverRead id (executions (fun _ _ => true) [⟨1, .string⟩] (earlier ++ [t]))
        [⟨1, .string⟩] t := by
  intro h
  obtain ⟨binds, hbinds, hread⟩ := h [_] _ [] rfl
  obtain rfl := Option.some.inj hbinds
  exact absurd (List.forall₂_cons.mp hread).1 (by decide)

end Sysbench.Scripting
