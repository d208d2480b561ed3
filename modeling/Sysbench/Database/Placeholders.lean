import Sysbench.Database.Binds

/-!
# Database/Placeholders — the buffer a query is expanded into

A driver that emulates prepared statements, and `pgsql_drv_prepare`, go over the text of the query
and copy it into a buffer, printing something in the place of each `?`.  The buffer is doubled when
it has no room for another byte and the terminator; and when a print did not fit, the loop goes
*again* to the same `?` with a buffer of twice the size.  Single bytes and prints keep the same
margin: the write position stays below the length of the buffer (`Expanding`), so the loop neither
leaves the buffer nor lacks room for the terminator, and ends with the expanded text
(`expand_eq`).
-/

namespace Sysbench.Database

/-! ## The loop -/

/-- How the expansion of a query ends without a text: there is no memory, the defined behaviour of C
is left, or the loop is still running after the turns it was given. -/
inductive ExpandError
  | noMemory
  | fault (f : Fault)
  | running
  deriving DecidableEq, Repr

/-- The variables of the loop.  All numbers are `unsigned int`. -/
structure Expansion where
  i : ℕ
  j : ℕ
  vcnt : ℕ
  buflen : ℕ
  buf : Block buflen
  needRealloc : Bool

/-- Before the loop there is no buffer; `first` is what the placeholders are counted from. -/
def startExpansion (first : ℕ) : Expansion := ⟨0, 0, first, 0, ⟨[], rfl⟩, true⟩

/-- What prints the placeholders: from the number of the placeholder and the room in the buffer, the
bytes it stores and what it returns, a negative number when the text did not fit. -/
abbrev Printer : Type := (vcnt room : ℕ) → Except Fault (List UInt8 × ℤ)

/-- `realloc` for a size: what stands in the new memory, or failure. -/
abbrev Realloc : Type := ℕ → Option (ℕ → UInt8)

variable (realloc : Realloc) (print : Printer)

/-- The next length of the buffer. -/
def doubled (buflen : ℕ) : ℕ := if 0 < buflen then buflen * 2 % 2 ^ 32 else 256

/-- The head of a turn: the buffer is doubled when it is full, or when the last print did not
fit. -/
def Expansion.grow (s : Expansion) : Except ExpandError Expansion :=
  if s.buflen ≤ (s.j + 1) % 2 ^ 32 ∨ s.needRealloc then
    match realloc (doubled s.buflen) with
    | none => .error .noMemory
    | some fresh =>
      .ok { s with
        buflen := doubled s.buflen
        buf := s.buf.realloc (doubled s.buflen) fresh
        needRealloc := false }
  else .ok s

/-- A store at the write position. -/
def Expansion.write (s : Expansion) (bytes : List UInt8) : Except ExpandError Expansion :=
  match s.buf.store s.j bytes with
  | .error f => .error (.fault f)
  | .ok buf => .ok { s with buf := buf }

/-- One turn of the loop, on the character at `i`. -/
def Expansion.turn (s : Expansion) (c : UInt8) : Except ExpandError Expansion := do
  let s ← s.grow realloc
  if c ≠ '?'.toUInt8 then
    let s ← s.write [c]
    return { s with i := (s.i + 1) % 2 ^ 32, j := (s.j + 1) % 2 ^ 32 }
  else
    match print s.vcnt (toU32 ((s.buflen : ℤ) - s.j)) with
    | .error f => .error (.fault f)
    | .ok (bytes, n) =>
      let s ← s.write bytes
      -- `goto again`: `i` stays where it is
      if n < 0 then return { s with needRealloc := true }
      else return { s with
        i := (s.i + 1) % 2 ^ 32
        j := (s.j + n.toNat) % 2 ^ 32
        vcnt := (s.vcnt + 1) % 2 ^ 32 }

/-- The loop, for a number of turns; it ends at the terminator of the query. -/
def expandLoop (query : CStr) : ℕ → Expansion → Except ExpandError Expansion
  | 0, _ => .error .running
  | turns + 1, s =>
    match query.bytes[s.i]? with
    | none => .ok s
    | some c => do expandLoop query turns (← s.turn realloc print c)

/-- The loop and the terminator: the text in the buffer, and `vcnt`. -/
def expand (first : ℕ) (query : CStr) (turns : ℕ) : Except ExpandError (List UInt8 × ℕ) := do
  let s ← expandLoop realloc print query turns (startExpansion first)
  let s ← s.write [0]
  return (s.buf.text, s.vcnt)

/-! ## The printers -/

/-- `db_print_value(var, buf, buflen)`: what it stores, and what it returns. -/
def dbPrintValueInto {F : Type} (percentF : F → CStr) (var : Bind F) (buflen : ℤ) :
    List UInt8 × ℤ :=
  match dbPrintValue percentF var with
  | none => ([], if 0 < buflen then 0 else -1)
  | some text => (text.cut (toU64 buflen), if text.length < buflen then text.length else -1)

/-- The bound parameters, in their order. -/
def boundParam {F : Type} (percentF : F → CStr) (params : List (Bind F)) : Printer :=
  fun vcnt room =>
    match params[vcnt]? with
    | none => .error .overrun
    | some var => .ok (dbPrintValueInto percentF var (toI32 room))

/-- `"$%d"`. -/
def dollar (vcnt : ℕ) : CStr := concat [.lit "$", percentD (toI32 vcnt)]

/-- The placeholders of PostgreSQL. -/
def dollarParam : Printer :=
  fun vcnt room =>
    .ok ((dollar vcnt).cut room,
      if (dollar vcnt).length < toI32 room then (dollar vcnt).length else -1)

/-- What `pgsql_drv_prepare` makes of a statement, before it has anything to do with the server. -/
inductive PgPrepared
  | emulated (query : CStr)
  | converted (query : List UInt8) (nparams : ℕ)

/-- `pgsql_drv_prepare`, up to where the statement is sent or left for the first `bind_param`. -/
def pgsqlDrvPrepare (usePs : Bool) (query : CStr) (turns : ℕ) :
    Except ExpandError PgPrepared :=
  if !usePs then .ok (.emulated query)
  else do
    let (text, vcnt) ← expand realloc dollarParam 1 query turns
    return .converted text (toU32 ((vcnt : ℤ) - 1))

/-! ## What the text should be -/

/-- The query with each `?` replaced, counting from `k`. -/
def filled (texts : ℕ → CStr) : List UInt8 → ℕ → List UInt8
  | [], _ => []
  | c :: query, k =>
    if c ≠ '?'.toUInt8 then c :: filled texts query k
    else (texts k).bytes ++ filled texts query (k + 1)

/-- The number of placeholders. -/
abbrev placeholders (query : CStr) : ℕ := query.bytes.count '?'.toUInt8

/-- The query with its placeholders replaced by the texts, in their order. -/
def replaced (query : CStr) (texts : List CStr) : List UInt8 :=
  splice (query.bytes.splitOn '?'.toUInt8) (texts.map CStr.bytes)

theorem filled_eq_splice (texts : ℕ → CStr) (query : List UInt8) (k : ℕ) :
    filled texts query k = splice (query.splitOn '?'.toUInt8)
      (((List.range' k (query.count '?'.toUInt8)).map texts).map CStr.bytes) := by
  induction query generalizing k with
  | nil => rfl
  | cons c query ih =>
    rw [List.splitOn_cons_eq_if_modifyHead, filled]
    rcases eq_or_ne c '?'.toUInt8 with rfl | hc
    · rw [if_neg (not_not.mpr rfl), if_pos (beq_self_eq_true _), List.count_cons_self,
        List.range'_succ, List.map_cons, List.map_cons, splice, List.nil_append, ih]
    · rw [if_pos hc, if_neg (by simpa using hc), splice_modifyHead c _ _ (List.splitOn_ne_nil _ _),
        List.count_cons_of_ne hc, ih]

/-- **Filling in the placeholders one by one replaces them all.** -/
theorem filled_eq_replaced (texts : ℕ → CStr) (query : CStr) (k : ℕ) :
    filled texts query.bytes k
      = replaced query ((List.range' k (query.bytes.count '?'.toUInt8)).map texts) :=
  filled_eq_splice texts query.bytes k

theorem zero_notMem_filled (texts : ℕ → CStr) {query : List UInt8} (h : 0 ∉ query) (k : ℕ) :
    0 ∉ filled texts query k := by
  induction query generalizing k with
  | nil => exact List.not_mem_nil
  | cons c query ih =>
    rw [List.mem_cons, not_or] at h
    rw [filled]
    split_ifs
    · rw [List.mem_cons, not_or]
      exact ⟨h.1, ih h.2 k⟩
    · rw [List.mem_append, not_or]
      exact ⟨(texts k).noNul, ih h.2 (k + 1)⟩

/-- **Placeholder `k` is printed as `text`**, where there is room for it and the terminator; else
the printer says so. -/
def Renders (k : ℕ) (text : CStr) : Prop :=
  ∀ room, 0 < room → room < 2 ^ 31 →
    ∃ bytes, print k room = .ok (bytes, if text.length < room then text.length else -1) ∧
      bytes.length ≤ room ∧ (text.length < room → text.bytes <+: bytes)

variable {realloc print} {s : Expansion} {done : List UInt8} {texts : ℕ → CStr} {query : CStr}

/-! ## The invariant -/

/-- **The state of the loop when it has written `done`**: the write position is within the buffer,
and the buffer is not larger than what `int` can hold of the room in it. -/
structure Expanding (s : Expansion) (done : List UInt8) : Prop where
  pos : s.j = done.length
  text : done <+: s.buf.1
  within : s.buflen = 0 ∧ s.j = 0 ∧ s.needRealloc = true ∨ s.j < s.buflen
  bound : s.buflen < 2 ^ 31 ∨ s.buflen ≤ 2 ^ 31 ∧ 2 ^ 30 ≤ s.j + 1
  needs : s.needRealloc = true → s.buflen < 2 ^ 30

/-- How many more turns can end in a print that does not fit. -/
def Expansion.patience (s : Expansion) : ℕ :=
  31 - Nat.log 2 s.buflen + if s.needRealloc then 0 else 1

theorem expanding_start (first : ℕ) : Expanding (startExpansion first) [] :=
  ⟨rfl, List.nil_prefix, .inl ⟨rfl, rfl, rfl⟩, .inl (Nat.two_pow_pos 31),
    fun _ => Nat.two_pow_pos 30⟩

/-- A buffer that is doubled uses up patience. -/
theorem log_doubled {n : ℕ} (h : n ≤ 2 ^ 30) :
    31 - Nat.log 2 (doubled n) + 1 ≤ 31 - Nat.log 2 n := by
  unfold doubled
  split_ifs with hpos
  · have hlog : Nat.log 2 n ≤ 30 := (Nat.log_mono_right h).trans (Nat.log_pow (by norm_num) 30).le
    rw [Nat.mod_eq_of_lt (by omega), Nat.log_mul_base (by norm_num) (by omega)]
    omega
  · obtain rfl : n = 0 := by omega
    have hlog : Nat.log 2 256 = 8 := Nat.log_pow (by norm_num) 8
    rw [hlog, Nat.log_zero_right]
    norm_num

theorem lt_doubled {n : ℕ} (h : n ≤ 2 ^ 30) :
    n < doubled n ∧ 1 < doubled n ∧ doubled n ≤ max 256 (n * 2) := by
  unfold doubled
  split_ifs <;> omega

/-- **There is room for a byte and the terminator** at the head of a turn, once the buffer has
grown. -/
theorem Expanding.grow (hE : Expanding s done) (hdone : done.length < 2 ^ 30)
    (hmem : ∀ n ≤ 2 ^ 31, (realloc n).isSome) :
    ∃ s', s.grow realloc = .ok s' ∧ Expanding s' done ∧ s'.i = s.i ∧ s'.vcnt = s.vcnt ∧
      s'.needRealloc = false ∧ s'.j + 1 < s'.buflen ∧ s'.patience ≤ s.patience := by
  obtain ⟨hpos, htext, hwithin, hbound, hneeds⟩ := hE
  have hj : (s.j + 1) % 2 ^ 32 = s.j + 1 := Nat.mod_eq_of_lt (by omega)
  unfold Expansion.grow
  rw [hj]
  by_cases hgrow : s.buflen ≤ s.j + 1 ∨ s.needRealloc = true
  · have hcases : s.buflen < 2 ^ 30 ∨ s.buflen = 2 ^ 30 ∧ 2 ^ 30 ≤ s.j + 1 := by
      rcases hgrow with hfull | hneed
      · omega
      · exact .inl (hneeds hneed)
    have hle : s.buflen ≤ 2 ^ 30 := by omega
    have hlog := log_doubled hle
    obtain ⟨hmono, hroom, hmax⟩ := lt_doubled hle
    obtain ⟨fresh, hfresh⟩ := Option.isSome_iff_exists.mp (hmem (doubled s.buflen) (by omega))
    rw [if_pos hgrow, hfresh]
    refine ⟨_, rfl, ⟨hpos, htext.trans (Block.prefix_realloc _ hmono.le _), .inr ?_, ?_, nofun⟩,
      rfl, rfl, rfl, ?_, ?_⟩
    · dsimp only
      omega
    · dsimp only
      omega
    · dsimp only
      omega
    · unfold Expansion.patience
      dsimp only
      split_ifs <;> omega
  · rw [if_neg hgrow]
    rw [not_or, not_le, Bool.not_eq_true] at hgrow
    exact ⟨s, rfl, ⟨hpos, htext, hwithin, hbound, hneeds⟩, rfl, rfl, hgrow.2, hgrow.1, le_rfl⟩

/-- Bytes behind what is written. -/
theorem Expanding.write (hE : Expanding s done) (bytes : List UInt8)
    (hfits : s.j + bytes.length ≤ s.buflen) :
    ∃ buf, s.write bytes = .ok { s with buf := buf } ∧ done ++ bytes <+: buf.1 := by
  obtain ⟨buf, hbuf, hbegin⟩ := Block.store_prefix hE.text (hE.pos ▸ hfits)
  refine ⟨buf, ?_, hbegin⟩
  rw [Expansion.write, hE.pos, hbuf]

/-- What is written becomes done, with room left for the terminator. -/
theorem Expanding.advance {buf : Block s.buflen} {text : List UInt8} (hE : Expanding s done)
    (hneed : s.needRealloc = false) (htext : done ++ text <+: buf.1)
    (hroom : s.j + text.length < s.buflen) (i v : ℕ) :
    Expanding { s with buf := buf, i := i, j := s.j + text.length, vcnt := v } (done ++ text) := by
  refine ⟨?_, htext, .inr hroom, ?_, fun h => absurd (h.symm.trans hneed) nofun⟩
  · rw [List.length_append, hE.pos]
  · have hbound := hE.bound
    dsimp only
    omega

/-- **A turn on a character that is copied.** -/
theorem Expanding.turn_char {c : UInt8} (print : Printer) (hE : Expanding s done)
    (hc : c ≠ '?'.toUInt8) (hdone : done.length + 1 < 2 ^ 30) (hi : s.i + 1 < 2 ^ 32)
    (hmem : ∀ n ≤ 2 ^ 31, (realloc n).isSome) :
    ∃ s', s.turn realloc print c = .ok s' ∧ Expanding s' (done ++ [c]) ∧ s'.j < s'.buflen ∧
      s'.i = s.i + 1 ∧ s'.vcnt = s.vcnt ∧ s'.patience ≤ s.patience := by
  obtain ⟨s₁, hgrow, hE₁, hi₁, hv₁, hneed, hroom, hpat⟩ := hE.grow (by omega) hmem
  obtain ⟨buf, hwrite, htext⟩ := hE₁.write [c] hroom.le
  have hpos := hE₁.pos
  have hj : (s₁.j + 1) % 2 ^ 32 = s₁.j + 1 := Nat.mod_eq_of_lt (by omega)
  have hi' : (s₁.i + 1) % 2 ^ 32 = s.i + 1 := by rw [hi₁, Nat.mod_eq_of_lt hi]
  have hturn : s.turn realloc print c
      = .ok { s₁ with buf := buf, i := s.i + 1, j := s₁.j + 1, vcnt := s₁.vcnt } := by
    simp only [Expansion.turn, hgrow, hwrite, bind, Except.bind, if_pos hc, pure, Except.pure, hj,
      hi']
  exact ⟨_, hturn, hE₁.advance hneed htext hroom _ _, hroom, rfl, hv₁, hpat⟩

/-- **A print leaves what is done alone**, and puts its text behind it if there is room for the
terminator too. -/
theorem Expanding.printed {text : CStr} (hE : Expanding s done) (hwithin : s.j < s.buflen)
    (hrender : Renders print s.vcnt text) :
    ∃ (bytes : List UInt8) (buf : Block s.buflen),
      print s.vcnt (toU32 ((s.buflen : ℤ) - s.j))
        = .ok (bytes, if s.j + text.length < s.buflen then text.length else -1) ∧
      s.write bytes = .ok { s with buf := buf } ∧ done <+: buf.1 ∧
      (s.j + text.length < s.buflen → done ++ text.bytes <+: buf.1) := by
  have hbound := hE.bound
  obtain ⟨room, hroom⟩ : ∃ room : ℕ, s.j + room = s.buflen := Nat.le.dest hwithin.le
  have hU32 : toU32 ((s.buflen : ℤ) - s.j) = room := by
    rw [← hroom, Nat.cast_add, add_sub_cancel_left]
    exact toU32_of_lt (by omega)
  have hfits : s.j + text.length < s.buflen ↔ text.length < room := by omega
  obtain ⟨bytes, hprint, hlen, hbegin⟩ := hrender room (by omega) (by omega)
  obtain ⟨buf, hwrite, htext⟩ := hE.write bytes (by omega)
  simp only [hU32, hfits]
  refine ⟨bytes, buf, hprint, hwrite, (List.prefix_append done bytes).trans htext, fun h => ?_⟩
  exact ((List.prefix_append_right_inj done).mpr (hbegin h)).trans htext

/-- **A turn on a placeholder**: it is printed, or the loop goes again, with less patience. -/
theorem Expanding.turn_placeholder {text : CStr} (hE : Expanding s done)
    (hrender : Renders print s.vcnt text) (hdone : done.length + text.length < 2 ^ 30)
    (hi : s.i + 1 < 2 ^ 32) (hv : s.vcnt + 1 < 2 ^ 32)
    (hmem : ∀ n ≤ 2 ^ 31, (realloc n).isSome) :
    ∃ s', s.turn realloc print '?'.toUInt8 = .ok s' ∧ s'.j < s'.buflen ∧
      (Expanding s' (done ++ text.bytes) ∧ s'.i = s.i + 1 ∧ s'.vcnt = s.vcnt + 1 ∧
          s'.patience ≤ s.patience ∨
        Expanding s' done ∧ s'.i = s.i ∧ s'.vcnt = s.vcnt ∧ s'.patience < s.patience) := by
  obtain ⟨s₁, hgrow, hE₁, hi₁, hv₁, hneed, hroom, hpat⟩ := hE.grow (by omega) hmem
  have hpos := hE₁.pos
  have hwithin : s₁.j < s₁.buflen := by omega
  obtain ⟨bytes, buf, hprint, hwrite, hkept, htext⟩ := hE₁.printed hwithin (hv₁ ▸ hrender)
  by_cases hfits : s₁.j + text.length < s₁.buflen
  · have hi' : (s₁.i + 1) % 2 ^ 32 = s.i + 1 := by rw [hi₁, Nat.mod_eq_of_lt hi]
    have hv' : (s₁.vcnt + 1) % 2 ^ 32 = s.vcnt + 1 := by rw [hv₁, Nat.mod_eq_of_lt hv]
    have hj : (s₁.j + text.length) % 2 ^ 32 = s₁.j + text.length := Nat.mod_eq_of_lt (by omega)
    have hturn : s.turn realloc print '?'.toUInt8 = .ok { s₁ with
        buf := buf, i := s.i + 1, j := s₁.j + text.length, vcnt := s.vcnt + 1 } := by
      have hnonneg : ¬ (text.length : ℤ) < 0 := by omega
      simp only [Expansion.turn, hgrow, bind, Except.bind, ne_eq, not_true, if_false, hprint,
        if_pos hfits, hwrite, pure, Except.pure, hnonneg, Int.toNat_natCast, hj, hi', hv']
    exact ⟨_, hturn, hfits,
      .inl ⟨hE₁.advance hneed (htext hfits) hfits _ _, rfl, rfl, hpat⟩⟩
  · have hturn : s.turn realloc print '?'.toUInt8
        = .ok { s₁ with buf := buf, needRealloc := true } := by
      have hneg : (-1 : ℤ) < 0 := by decide
      simp only [Expansion.turn, hgrow, bind, Except.bind, ne_eq, not_true, if_false, hprint,
        if_neg hfits, hwrite, pure, Except.pure, hneg, if_true]
    refine ⟨_, hturn, hwithin,
      .inr ⟨⟨hpos, hkept, .inr hwithin, hE₁.bound, fun _ => ?_⟩, hi₁, hv₁, ?_⟩⟩
    · dsimp only
      omega
    · refine lt_of_lt_of_le ?_ hpat
      unfold Expansion.patience
      simp [hneed]

/-! ## The whole loop -/

section Loop

variable (texts : ℕ → CStr) (query : CStr) (first : ℕ)

/-- **Between two turns**: with the rest of the query expanded, what is done is the whole text. -/
structure Progress (s : Expansion) (done : List UInt8) : Prop extends Expanding s done where
  le : s.i ≤ query.length
  first_le : first ≤ s.vcnt
  counted : s.vcnt + (query.bytes.drop s.i).count '?'.toUInt8
    = first + query.bytes.count '?'.toUInt8
  whole : done ++ filled texts (query.bytes.drop s.i) s.vcnt = filled texts query.bytes first

/-- What is left to do: the characters of the query, and the prints that may not fit. -/
def Expansion.ahead (s : Expansion) : ℕ := query.length - s.i + s.patience

variable {texts query first}

theorem progress_start : Progress texts query first (startExpansion first) [] :=
  ⟨expanding_start first, Nat.zero_le _, le_rfl, rfl, rfl⟩

/-- **One turn makes progress.** -/
theorem Progress.turn {c : UInt8} (hP : Progress texts query first s done)
    (hget : query.bytes[s.i]? = some c) (hmem : ∀ n ≤ 2 ^ 31, (realloc n).isSome)
    (hquery : query.length < 2 ^ 32)
    (hrender : ∀ k, first ≤ k → k < first + query.bytes.count '?'.toUInt8 →
      Renders print k (texts k))
    (hvcnt : first + query.bytes.count '?'.toUInt8 < 2 ^ 32)
    (htotal : (filled texts query.bytes first).length < 2 ^ 30) :
    ∃ s' done', s.turn realloc print c = .ok s' ∧ Progress texts query first s' done' ∧
      s'.j < s'.buflen ∧ s'.ahead query < s.ahead query := by
  obtain ⟨hE, hle, hfirst, hcounted, hwhole⟩ := hP
  obtain ⟨hlt, hc⟩ := List.getElem?_eq_some_iff.mp hget
  have hi : s.i < query.length := hlt
  have hdrop : query.bytes.drop s.i = c :: query.bytes.drop (s.i + 1) :=
    hc ▸ List.drop_eq_getElem_cons hlt
  rw [hdrop] at hcounted hwhole
  have hlength := congrArg List.length hwhole
  rcases eq_or_ne c '?'.toUInt8 with rfl | hne
  · have hcount := hcounted
    rw [List.count_cons_self] at hcount
    have hnext := hwhole
    rw [filled, if_neg (not_not.mpr rfl), ← List.append_assoc] at hnext
    rw [filled, if_neg (not_not.mpr rfl), List.length_append, List.length_append] at hlength
    obtain ⟨s', hturn, hwithin, ⟨hE', hi', hv', hpat⟩ | ⟨hE', hi', hv', hpat⟩⟩ :=
      hE.turn_placeholder (hrender s.vcnt hfirst (by omega)) (by rw [CStr.length]; omega)
        (by omega) (by omega) hmem
    · refine ⟨s', _, hturn, ⟨hE', by omega, by omega, ?_, ?_⟩, hwithin, ?_⟩
      · rw [hi', hv']
        omega
      · rw [hi', hv', hnext]
      · rw [Expansion.ahead, Expansion.ahead, hi']
        omega
    · -- `goto again`: only the buffer and the patience have changed
      refine ⟨s', _, hturn, ⟨hE', by omega, by omega, ?_, ?_⟩, hwithin, ?_⟩
      · rw [hi', hv', hdrop, hcounted]
      · rw [hi', hv', hdrop, hwhole]
      · rw [Expansion.ahead, Expansion.ahead, hi']
        omega
  · rw [List.count_cons_of_ne hne] at hcounted
    rw [filled, if_pos hne, List.append_cons] at hwhole
    rw [filled, if_pos hne, List.length_append, List.length_cons] at hlength
    obtain ⟨s', hturn, hE', hwithin, hi', hv', hpat⟩ :=
      hE.turn_char print hne (by omega) (by omega) hmem
    refine ⟨s', _, hturn, ⟨hE', by omega, by omega, ?_, ?_⟩, hwithin, ?_⟩
    · rw [hi', hv', hcounted]
    · rw [hi', hv', hwhole]
    · rw [Expansion.ahead, Expansion.ahead, hi']
      omega

/-- **The loop ends with the whole text done.** -/
theorem Progress.loop {turns : ℕ} (hP : Progress texts query first s done)
    (hmem : ∀ n ≤ 2 ^ 31, (realloc n).isSome) (hquery : query.length < 2 ^ 32)
    (hrender : ∀ k, first ≤ k → k < first + query.bytes.count '?'.toUInt8 →
      Renders print k (texts k))
    (hvcnt : first + query.bytes.count '?'.toUInt8 < 2 ^ 32)
    (htotal : (filled texts query.bytes first).length < 2 ^ 30)
    (hturns : s.ahead query < turns) (hbegun : s.i < query.length ∨ s.j < s.buflen) :
    ∃ s', expandLoop realloc print query turns s = .ok s' ∧
      Expanding s' (filled texts query.bytes first) ∧
      s'.vcnt = first + query.bytes.count '?'.toUInt8 ∧ s'.j < s'.buflen := by
  induction turns generalizing s done with
  | zero => exact absurd hturns (Nat.not_lt_zero _)
  | succ turns ih =>
    rw [expandLoop]
    cases hget : query.bytes[s.i]? with
    | none =>
      have hend : query.bytes.length ≤ s.i := List.getElem?_eq_none_iff.mp hget
      obtain ⟨hE, -, -, hcounted, hwhole⟩ := hP
      rw [List.drop_eq_nil_of_le hend] at hcounted hwhole
      rw [filled, List.append_nil] at hwhole
      exact ⟨s, rfl, hwhole ▸ hE, hcounted, hbegun.resolve_left (Nat.not_lt.mpr hend)⟩
    | some c =>
      obtain ⟨s', done', hturn, hP', hwithin, hahead⟩ :=
        hP.turn hget hmem hquery hrender hvcnt htotal
      dsimp only
      rw [hturn]
      exact ih hP' (by omega) (.inr hwithin)

/-- **The expansion of a query**: it ends, at no time leaves the buffer, and is the query with its
placeholders replaced by the texts the printer has for them. -/
theorem expand_eq {turns : ℕ} (hmem : ∀ n ≤ 2 ^ 31, (realloc n).isSome)
    (hquery : query.length < 2 ^ 32) (hne : query.bytes ≠ [])
    (hrender : ∀ k, first ≤ k → k < first + query.bytes.count '?'.toUInt8 →
      Renders print k (texts k))
    (hvcnt : first + query.bytes.count '?'.toUInt8 < 2 ^ 32)
    (htotal : (filled texts query.bytes first).length < 2 ^ 30)
    (hturns : query.length + 32 ≤ turns) :
    expand realloc print first query turns
      = .ok (filled texts query.bytes first, first + query.bytes.count '?'.toUInt8) := by
  have hahead : (startExpansion first).ahead query = query.length + 31 := by
    simp [Expansion.ahead, Expansion.patience, startExpansion]
  obtain ⟨s, hloop, hE, hv, hwithin⟩ := progress_start.loop hmem hquery hrender hvcnt htotal
    (hahead.trans_lt hturns) (.inl (List.length_pos_of_ne_nil hne))
  obtain ⟨buf, hwrite, htext⟩ := hE.write [0] hwithin
  simp only [expand, hloop, hwrite, bind, Except.bind, pure, Except.pure, hv]
  rw [Block.text_eq htext (zero_notMem_filled texts query.noNul _)]

end Loop

/-! ## What the printers print -/

/-- The text of a parameter; of one that `db_print_value` does not print, the empty one. -/
def rendered {F : Type} (percentF : F → CStr) (var : Bind F) : CStr :=
  (dbPrintValue percentF var).getD (.ofBytes [])

/-- **A bound parameter is printed as its text.** -/
theorem renders_boundParam {F : Type} {percentF : F → CStr} {params : List (Bind F)}
    {var : Bind F} {k : ℕ} (h : params[k]? = some var) :
    Renders (boundParam percentF params) k (rendered percentF var) := by
  intro room hpos hroom
  have hI32 : toI32 (room : ℤ) = room := toI32_of_lt (by omega) (by omega)
  have hU64 : toU64 (room : ℤ) = room := toU64_of_lt (by omega)
  cases htext : dbPrintValue percentF var with
  | none =>
    have hzero : (CStr.ofBytes []).length = 0 := rfl
    refine ⟨[], ?_, Nat.zero_le room, fun _ => ?_⟩
    · simp only [boundParam, h, hI32, dbPrintValueInto, rendered, htext, Option.getD_none, hzero,
        Nat.cast_pos, if_pos hpos, Nat.cast_zero]
    · rw [rendered, htext]
      exact List.nil_prefix
  | some text =>
    have hrendered : rendered percentF var = text := by rw [rendered, htext, Option.getD_some]
    rw [hrendered]
    refine ⟨text.cut room, ?_, text.length_cut_le room, CStr.prefix_cut⟩
    simp only [boundParam, h, hI32, dbPrintValueInto, htext, hU64, Nat.cast_lt]

/-- The placeholder PostgreSQL has for parameter `k`. -/
def numbered (k : ℕ) : CStr := concat [.lit "$", percentD k]

theorem numbered_ne_nil (k : ℕ) : (numbered k).bytes ≠ [] := by
  have hfirst : (numbered k).bytes = '$'.toUInt8 :: (concat [percentD k]).bytes := rfl
  rw [hfirst]
  exact List.cons_ne_nil _ _

theorem renders_dollarParam {k : ℕ} (hk : k < 2 ^ 31) : Renders dollarParam k (numbered k) := by
  intro room _ hroom
  have hk32 : toI32 (k : ℤ) = k := toI32_of_lt (by omega) (by omega)
  have hI32 : toI32 (room : ℤ) = room := toI32_of_lt (by omega) (by omega)
  have hdollar : dollar k = numbered k := by rw [dollar, numbered, hk32]
  refine ⟨(numbered k).cut room, ?_, (numbered k).length_cut_le room, CStr.prefix_cut⟩
  simp only [dollarParam, hdollar, hI32, Nat.cast_lt]

/-- Texts that are not empty do not make the query shorter. -/
theorem length_le_filled (hne : ∀ k, (texts k).bytes ≠ []) (query : List UInt8) (k : ℕ) :
    query.length ≤ (filled texts query k).length := by
  induction query generalizing k with
  | nil => exact Nat.zero_le _
  | cons c query ih =>
    rw [filled]
    split_ifs
    · exact Nat.succ_le_succ (ih k)
    · have hpos := List.length_pos_of_ne_nil (hne k)
      have hrest := ih (k + 1)
      rw [List.length_cons, List.length_append]
      omega

/-- **`pgsql_drv_prepare` numbers the placeholders**, and counts them. -/
theorem pgsqlDrvPrepare_eq {turns : ℕ} (hmem : ∀ n ≤ 2 ^ 31, (realloc n).isSome)
    (hne : query.bytes ≠ []) (htotal : (filled numbered query.bytes 1).length < 2 ^ 30)
    (hturns : query.length + 32 ≤ turns) :
    pgsqlDrvPrepare realloc true query turns = .ok (.converted (filled numbered query.bytes 1)
      (query.bytes.count '?'.toUInt8)) := by
  have hlen := length_le_filled numbered_ne_nil query.bytes 1
  have hcount : query.bytes.count '?'.toUInt8 ≤ query.bytes.length := List.count_le_length
  have hexpand : expand realloc dollarParam 1 query turns
      = .ok (filled numbered query.bytes 1, 1 + query.bytes.count '?'.toUInt8) :=
    expand_eq hmem (hlen.trans_lt (by omega)) hne
      (fun k _ hk => renders_dollarParam (by omega)) (by omega) htotal hturns
  have hnparams : toU32 (((1 + query.bytes.count '?'.toUInt8 : ℕ) : ℤ) - 1)
      = query.bytes.count '?'.toUInt8 := by
    rw [Nat.cast_add, Nat.cast_one, add_sub_cancel_left]
    exact toU32_of_lt (by omega)
  simp only [pgsqlDrvPrepare, Bool.not_true, Bool.false_eq_true, if_false, hexpand, bind,
    Except.bind, pure, Except.pure, hnparams]

/-! ## A query of `2 ^ 32` placeholders

`i` is an `unsigned int`: where nothing is printed for the placeholders, such a query has a short
text, and the loop does not end. -/

/-- A printer that prints nothing, for any placeholder. -/
def printNothing : Printer := fun _ _ => .ok ([], 0)

theorem renders_printNothing (k : ℕ) : Renders printNothing k (.ofBytes []) := by
  intro room hpos _
  have hzero : (CStr.ofBytes []).length = 0 := rfl
  refine ⟨[], ?_, Nat.zero_le room, fun _ => List.nil_prefix⟩
  rw [hzero, if_pos hpos]
  rfl

/-- `2 ^ 32` placeholders. -/
def onlyPlaceholders : CStr :=
  ⟨List.replicate (2 ^ 32) '?'.toUInt8, by rw [List.mem_replicate]; decide⟩

/-- Its text is empty. -/
theorem replaced_onlyPlaceholders :
    replaced onlyPlaceholders
      ((List.range (placeholders onlyPlaceholders)).map fun _ => .ofBytes []) = [] := by
  have hfilled : ∀ n k, filled (fun _ => .ofBytes []) (List.replicate n '?'.toUInt8) k = [] := by
    intro n
    induction n with
    | zero => exact fun _ => rfl
    | succ n ih =>
      intro k
      rw [List.replicate_succ, filled, if_neg (not_not.mpr rfl), ih]
      rfl
  rw [List.range_eq_range', ← filled_eq_replaced]
  exact hfilled _ _

/-- A turn that prints nothing. -/
theorem Expanding.turn_printNothing (hE : Expanding s [])
    (hmem : ∀ n ≤ 2 ^ 31, (realloc n).isSome) :
    ∃ s', s.turn realloc printNothing '?'.toUInt8 = .ok s' ∧ Expanding s' [] ∧
      s'.i < 2 ^ 32 := by
  obtain ⟨s₁, hgrow, hE₁, -, -, hneed, hroom, -⟩ := hE.grow (Nat.two_pow_pos 30) hmem
  obtain ⟨buf, hwrite, htext⟩ := hE₁.write [] (by rw [List.length_nil]; omega)
  have hj : (s₁.j + 0) % 2 ^ 32 = s₁.j + 0 := by rw [hE₁.pos]; rfl
  have hturn : s.turn realloc printNothing '?'.toUInt8 = .ok { s₁ with
      buf := buf, i := (s₁.i + 1) % 2 ^ 32, j := s₁.j + 0, vcnt := (s₁.vcnt + 1) % 2 ^ 32 } := by
    simp only [Expansion.turn, hgrow, bind, Except.bind, ne_eq, not_true, if_false, printNothing,
      hwrite, pure, Except.pure, lt_self_iff_false, Int.toNat_zero, hj]
  exact ⟨_, hturn, hE₁.advance hneed htext (Nat.lt_of_succ_lt hroom) _ _,
    Nat.mod_lt _ (Nat.two_pow_pos 32)⟩

theorem expandLoop_onlyPlaceholders (hE : Expanding s []) (hi : s.i < 2 ^ 32)
    (hmem : ∀ n ≤ 2 ^ 31, (realloc n).isSome) (turns : ℕ) :
    expandLoop realloc printNothing onlyPlaceholders turns s = .error .running := by
  induction turns generalizing s with
  | zero => rfl
  | succ turns ih =>
    obtain ⟨s', hturn, hE', hi'⟩ := hE.turn_printNothing hmem
    have hget : onlyPlaceholders.bytes[s.i]? = some '?'.toUInt8 := by
      rw [onlyPlaceholders, List.getElem?_replicate, if_pos hi]
    rw [expandLoop, hget]
    dsimp only
    rw [hturn]
    exact ih hE' hi'

/-- **The loop does not end**, for however many turns. -/
theorem expand_onlyPlaceholders (hmem : ∀ n ≤ 2 ^ 31, (realloc n).isSome) (first turns : ℕ) :
    expand realloc printNothing first onlyPlaceholders turns = .error .running := by
  rw [expand, expandLoop_onlyPlaceholders (expanding_start first) (Nat.two_pow_pos 32) hmem]
  rfl

end Sysbench.Database
