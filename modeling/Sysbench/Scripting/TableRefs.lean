import Mathlib.Data.Set.Card
import Sysbench.Machinery.RefTable
import Sysbench.Machinery.Traces

/-!
# Scripting/TableRefs — how a prepared statement finds its tables again

`db_bind_param` and `db_bind_result` keep the script's table in the registry of the interpreter; the
statement keeps the reference, and `db_execute` reads the parameters from the table it finds there.
`db_close` gives both references back.  But a statement whose results were never bound has the 0 of
`memset` for the second: with it the list of the free references is lost.

No statement ever finds the table of another (`params_read_back`); but as long as no script binds
results, what one has bound stays in use for good (`registry_grows`).
-/

namespace Sysbench.Scripting.Refs

variable {T : Type*}

/-! ## References -/

/-- `LUA_REFNIL`. -/
def luaRefNil : ℤ := -1

/-- `lua_rawgeti`, on the registry. -/
def luaRawgeti (registry : RefTable T) (ref : ℤ) : Option (RefSlot T) :=
  if 0 ≤ ref then registry ref.toNat else none

/-- `luaL_unref`, on the registry. -/
def luaLUnref (registry : RefTable T) (ref : ℤ) : RefTable T :=
  if 0 ≤ ref then registry.unref ref.toNat else registry

/-- What a table is bound to. -/
inductive BoundAs
  | params
  | results
  deriving DecidableEq

/-- The references of a `sb_lua_db_stmt_t`. -/
structure StmtRefs where
  paramRef : ℤ
  resultRef : ℤ

/-- The reference to the table that is bound. -/
def StmtRefs.ref (stmt : StmtRefs) : BoundAs → ℤ
  | .params => stmt.paramRef
  | .results => stmt.resultRef

/-- The statement with another reference. -/
def StmtRefs.setRef (stmt : StmtRefs) (ref : ℤ) : BoundAs → StmtRefs
  | .params => { stmt with paramRef := ref }
  | .results => { stmt with resultRef := ref }

/-- A statement as `sb_lua_db_prepare` makes it: only one of the references is initialised. -/
def sbLuaDbPrepare : StmtRefs where
  paramRef := luaRefNil
  resultRef := 0

/-- The registry of an interpreter, and the statements that are not closed. -/
structure RefState (T : Type*) where
  registry : RefTable T
  stmts : ℕ → Option StmtRefs
  nstmts : ℕ

/-- An interpreter without statements. -/
def RefState.start : RefState T := ⟨fun _ => none, fun _ => none, 0⟩

/-- The calls of a script that succeed, none of them on a statement that is closed.  `border` is the
length of the registry, which `lua_objlen` may find at any border. -/
inductive RefCall (T : Type*)
  | prepare
  | bindParam (i : ℕ) (table : T) (border : ℕ)
  | bindResult (i : ℕ) (table : T) (border : ℕ)
  | close (i : ℕ)

/-- The end of `sb_lua_db_bind_param` and `sb_lua_db_bind_result`, for statement `i`. -/
def RefState.bind (s : RefState T) (as : BoundAs) (i : ℕ) (table : T) (border : ℕ) :
    Option (RefState T) :=
  (s.stmts i).bind fun stmt =>
    if s.registry.IsBorder border then
      let kept := s.registry.ref border table
      some { s with
        registry := kept.2
        stmts := Function.update s.stmts i (some (stmt.setRef kept.1 as)) }
    else none

/-- What a call does to the references. -/
def refCall (s : RefState T) : RefCall T → Option (RefState T)
  | .prepare =>
    some { s with
      stmts := Function.update s.stmts s.nstmts (some sbLuaDbPrepare)
      nstmts := s.nstmts + 1 }
  | .bindParam i table border => s.bind .params i table border
  | .bindResult i table border => s.bind .results i table border
  | .close i => (s.stmts i).map fun stmt =>
    { s with
      registry := luaLUnref (luaLUnref s.registry stmt.paramRef) stmt.resultRef
      stmts := Function.update s.stmts i none }

/-! ## What is bound -/

/-- The table that a call binds to statement `p.1`. -/
def RefCall.boundTo (p : ℕ × BoundAs) : RefCall T → Option T
  | .bindParam i table _ => if (i, .params) = p then some table else none
  | .bindResult i table _ => if (i, .results) = p then some table else none
  | _ => none

/-- The table that was last bound to statement `p.1`. -/
def lastBound (hist : List (RefState T × RefCall T)) (p : ℕ × BoundAs) : Option T :=
  (hist.filterMap fun e => e.2.boundTo p).getLast?

/-- The references in use once `ref` is given back. -/
def heldWithout (held : ℕ → Option T) (ref : ℤ) : ℕ → Option T :=
  if 0 < ref then Function.update held ref.toNat none else held

/-- **Every statement has references of its own**: `owner` says whose a reference is. -/
structure RefsInv (bound : ℕ × BoundAs → Option T) (s : RefState T) (held : ℕ → Option T)
    (owner : ℕ → ℕ × BoundAs) : Prop where
  keeps : s.registry.Keeps held
  fresh : ∀ i, s.nstmts ≤ i → s.stmts i = none ∧ ∀ as, bound (i, as) = none
  refs : ∀ {i stmt}, s.stmts i = some stmt → ∀ as,
    stmt.ref as = sbLuaDbPrepare.ref as ∧ bound (i, as) = none ∨
      ∃ (k : ℕ) (a : T), stmt.ref as = k ∧ owner k = (i, as) ∧ held k = some a ∧
        bound (i, as) = some a

theorem lastBound_concat (hist : List (RefState T × RefCall T)) (e : RefState T × RefCall T)
    (p : ℕ × BoundAs) : lastBound (hist ++ [e]) p = (e.2.boundTo p).or (lastBound hist p) := by
  rw [lastBound, List.filterMap_append, List.getLast?_append, lastBound]
  cases h : e.2.boundTo p <;> simp [h]

theorem ref_setRef_self (stmt : StmtRefs) (ref : ℤ) (as : BoundAs) :
    (stmt.setRef ref as).ref as = ref := by cases as <;> rfl

theorem ref_setRef_of_ne (stmt : StmtRefs) (ref : ℤ) {as as' : BoundAs} (h : as' ≠ as) :
    (stmt.setRef ref as).ref as' = stmt.ref as' := by
  cases as <;> cases as' <;> first | rfl | exact absurd rfl h

theorem refsInv_start : RefsInv (fun _ => none) (RefState.start : RefState T) (fun _ => none)
    fun k => (k, .params) where
  keeps := RefTable.keeps_empty
  fresh := fun _ _ => ⟨rfl, fun _ => rfl⟩
  refs := fun h => nomatch h

/-! ## The calls keep the references apart -/

section Steps

variable {bound : ℕ × BoundAs → Option T} {held : ℕ → Option T} {owner : ℕ → ℕ × BoundAs}
  {s s' : RefState T} {i : ℕ}

theorem RefsInv.prepare (h : RefsInv bound s held owner)
    (hs : refCall s .prepare = some s') : RefsInv bound s' held owner := by
  obtain rfl := Option.some.inj hs
  refine ⟨h.keeps, fun j hj => ?_, fun {j st} hst as => ?_⟩
  · have hlt : s.nstmts < j := hj
    dsimp only
    rw [Function.update_of_ne hlt.ne']
    exact h.fresh j hlt.le
  · dsimp only at hst
    rcases eq_or_ne j s.nstmts with rfl | hne
    · rw [Function.update_self] at hst
      obtain rfl := Option.some.inj hst
      exact .inl ⟨rfl, (h.fresh _ le_rfl).2 as⟩
    · rw [Function.update_of_ne hne] at hst
      exact h.refs hst as

/-- **A bind gives a statement a reference of its own.** -/
theorem RefsInv.bind (h : RefsInv bound s held owner) {as : BoundAs} {table : T} {border : ℕ}
    (hs : s.bind as i table border = some s') :
    ∃ held' owner', RefsInv (Function.update bound (i, as) (some table)) s' held' owner' := by
  obtain ⟨stmt, hstmt, hs⟩ := Option.bind_eq_some_iff.mp hs
  split_ifs at hs with hborder
  obtain rfl := Option.some.inj hs
  obtain ⟨hnone, -, hkeeps⟩ := h.keeps.ref hborder table
  obtain ⟨r, hr⟩ : ∃ r, r = (s.registry.ref border table).1 := ⟨_, rfl⟩
  rw [← hr] at hnone hkeeps
  refine ⟨Function.update held r (some table), Function.update owner r (i, as), hkeeps,
    fun j hj => ?_, fun {j st} hst as' => ?_⟩
  · obtain ⟨hnot, hbound⟩ := h.fresh j hj
    have hne : j ≠ i := by
      rintro rfl
      exact Option.some_ne_none stmt (hstmt.symm.trans hnot)
    refine ⟨(Function.update_of_ne hne _ _).trans hnot, fun as' => ?_⟩
    rw [Function.update_of_ne fun hp => hne (congrArg Prod.fst hp)]
    exact hbound as'
  · dsimp only at hst
    rw [← hr] at hst
    rcases eq_or_ne (j, as') (i, as) with hp | hp
    · obtain ⟨rfl, rfl⟩ := Prod.mk.inj hp
      rw [Function.update_self] at hst
      obtain rfl := Option.some.inj hst
      exact .inr ⟨r, table, ref_setRef_self .., Function.update_self .., Function.update_self ..,
        Function.update_self ..⟩
    · -- all other references are as before, and none of them is the new one
      obtain ⟨st', hst', href⟩ : ∃ st', s.stmts j = some st' ∧ st.ref as' = st'.ref as' := by
        rcases eq_or_ne j i with rfl | hne
        · rw [Function.update_self] at hst
          obtain rfl := Option.some.inj hst
          exact ⟨stmt, hstmt, ref_setRef_of_ne _ _ fun has => hp (by rw [has])⟩
        · rw [Function.update_of_ne hne] at hst
          exact ⟨st, hst, rfl⟩
      rw [href, Function.update_of_ne hp]
      refine (h.refs hst' as').imp_right fun ⟨k, a, hk, howner, hheld, hbound⟩ => ?_
      have hkr : k ≠ r := by
        rintro rfl
        exact Option.some_ne_none a (hheld.symm.trans hnone)
      exact ⟨k, a, hk, (Function.update_of_ne hkr _ _).trans howner,
        (Function.update_of_ne hkr _ _).trans hheld, hbound⟩

/-- A reference that is given back, or none. -/
theorem keeps_luaLUnref {registry : RefTable T} {ref : ℤ} (h : registry.Keeps held)
    (href : ref ≤ 0 ∨ ∃ (k : ℕ) (a : T), ref = k ∧ held k = some a) :
    (luaLUnref registry ref).Keeps (heldWithout held ref) := by
  rcases href with href | ⟨k, a, rfl, hk⟩
  · rw [heldWithout, if_neg href.not_gt, luaLUnref]
    split_ifs with h0
    · obtain rfl := le_antisymm href h0
      exact h.unref_zero
    · exact h
  · have hpos : (0 : ℤ) < k := by exact_mod_cast (h.object hk).1.bot_lt
    rw [heldWithout, if_pos hpos, luaLUnref, if_pos hpos.le, Int.toNat_natCast]
    exact h.unref hk

theorem heldWithout_of_ne {ref : ℤ} {k : ℕ} (h : ref ≠ k) : heldWithout held ref k = held k := by
  unfold heldWithout
  split_ifs with hpos
  · exact Function.update_of_ne (fun hk => h (by rw [hk, Int.toNat_of_nonneg hpos.le])) _ _
  · rfl

theorem ref_sbLuaDbPrepare_le (as : BoundAs) : sbLuaDbPrepare.ref as ≤ 0 := by cases as <;> decide

/-- The references of a statement are those of no other, nor of it twice. -/
theorem RefsInv.ref_ne (h : RefsInv bound s held owner) {stmt : StmtRefs}
    (hstmt : s.stmts i = some stmt) {as : BoundAs} {k : ℕ} {p : ℕ × BoundAs} (hp : p ≠ (i, as))
    (howner : owner k = p) (hheld : held k ≠ none) : stmt.ref as ≠ k := by
  intro hk
  rcases h.refs hstmt as with ⟨hunset, -⟩ | ⟨k', a, hk', howner', -, -⟩
  · obtain ⟨a, ha⟩ := Option.ne_none_iff_exists'.mp hheld
    have hpos : 0 < k := (h.keeps.object ha).1.bot_lt
    have hle := ref_sbLuaDbPrepare_le as
    omega
  · obtain rfl : k' = k := by exact_mod_cast hk'.symm.trans hk
    exact hp (howner.symm.trans howner')

/-- **To close a statement leaves the references of the others.** -/
theorem RefsInv.close (h : RefsInv bound s held owner) (hs : refCall s (.close i) = some s') :
    ∃ held', RefsInv bound s' held' owner := by
  obtain ⟨stmt, hstmt, rfl⟩ := Option.map_eq_some_iff.mp hs
  have hset : ∀ as, stmt.ref as ≤ 0 ∨
      ∃ (k : ℕ) (a : T), stmt.ref as = k ∧ owner k = (i, as) ∧ held k = some a := fun as =>
    (h.refs hstmt as).imp (fun hunset => hunset.1.trans_le (ref_sbLuaDbPrepare_le as))
      fun ⟨k, a, hk, howner, hheld, _⟩ => ⟨k, a, hk, howner, hheld⟩
  have hresult : stmt.resultRef ≤ 0 ∨
      ∃ (k : ℕ) (a : T), stmt.resultRef = k ∧ heldWithout held stmt.paramRef k = some a := by
    refine (hset .results).imp_right fun ⟨k, a, hk, howner, hheld⟩ => ⟨k, a, hk, ?_⟩
    have hne : stmt.ref .params ≠ k :=
      h.ref_ne hstmt (by simp) howner (by rw [hheld]; exact Option.some_ne_none a)
    exact (heldWithout_of_ne hne).trans hheld
  have hkeeps := keeps_luaLUnref (keeps_luaLUnref h.keeps ((hset .params).imp_right
    fun ⟨k, a, hk, _, hheld⟩ => ⟨k, a, hk, hheld⟩)) hresult
  refine ⟨_, hkeeps, fun j hj => ?_, fun {j st} hst as => ?_⟩
  · obtain ⟨hnot, hbound⟩ := h.fresh j hj
    refine ⟨?_, hbound⟩
    dsimp only
    rcases eq_or_ne j i with rfl | hne
    · exact Function.update_self ..
    · rw [Function.update_of_ne hne, hnot]
  · dsimp only at hst
    have hne : j ≠ i := by
      rintro rfl
      rw [Function.update_self] at hst
      cases hst
    rw [Function.update_of_ne hne] at hst
    refine (h.refs hst as).imp_right fun ⟨k, a, hk, howner, hheld, hbound⟩ => ?_
    have hother : ∀ as', stmt.ref as' ≠ k := fun as' =>
      h.ref_ne hstmt (fun hp => hne (congrArg Prod.fst hp)) howner
        (by rw [hheld]; exact Option.some_ne_none a)
    refine ⟨k, a, hk, howner, ?_, hbound⟩
    exact (heldWithout_of_ne (hother .results)).trans
      ((heldWithout_of_ne (hother .params)).trans hheld)

end Steps

/-! ## Runs -/

section Runs

variable {hist : List (RefState T × RefCall T)} {s s' : RefState T}

/-- A call that binds nothing. -/
theorem lastBound_of_none {c : RefCall T} (hc : ∀ p, c.boundTo p = none) :
    lastBound (hist ++ [(s, c)]) = lastBound hist := by
  ext p : 1
  rw [lastBound_concat, hc, Option.none_or]

/-- A call that binds a table to one statement. -/
theorem lastBound_of_bind {c : RefCall T} {q : ℕ × BoundAs} {table : T}
    (hc : ∀ p, c.boundTo p = if q = p then some table else none) :
    lastBound (hist ++ [(s, c)]) = Function.update (lastBound hist) q (some table) := by
  ext p : 1
  rw [lastBound_concat, hc, Function.update_apply]
  rcases eq_or_ne q p with rfl | hp
  · rw [if_pos rfl, if_pos rfl, Option.some_or]
  · rw [if_neg hp, if_neg hp.symm, Option.none_or]

/-- **One call.** -/
theorem RefsInv.step {held : ℕ → Option T} {owner : ℕ → ℕ × BoundAs}
    (h : RefsInv (lastBound hist) s held owner) {c : RefCall T} (hs : refCall s c = some s') :
    ∃ held' owner', RefsInv (lastBound (hist ++ [(s, c)])) s' held' owner' := by
  cases c with
  | prepare =>
    rw [lastBound_of_none fun _ => rfl]
    exact ⟨held, owner, h.prepare hs⟩
  | bindParam i table border =>
    rw [lastBound_of_bind fun _ => rfl]
    exact h.bind hs
  | bindResult i table border =>
    rw [lastBound_of_bind fun _ => rfl]
    exact h.bind hs
  | close i =>
    rw [lastBound_of_none fun _ => rfl]
    obtain ⟨held', h'⟩ := h.close hs
    exact ⟨held', owner, h'⟩

theorem refsInv_of_run (h : Sysbench.Run refCall .start hist s) :
    ∃ held owner, RefsInv (lastBound hist) s held owner :=
  h.induction (fun hist s => ∃ held owner, RefsInv (lastBound hist) s held owner)
    ⟨_, _, refsInv_start⟩ fun _ _ _ _ ⟨_, _, hinv⟩ hs => hinv.step hs

/-- **A statement finds the table that was last bound to it**, whatever statements are prepared,
bound and closed in between, and wherever the registry is taken to end; and nothing before one was
bound. -/
theorem params_read_back (h : Sysbench.Run refCall .start hist s) {i : ℕ} {stmt : StmtRefs}
    (hstmt : s.stmts i = some stmt) :
    luaRawgeti s.registry stmt.paramRef = (lastBound hist (i, .params)).map .object := by
  obtain ⟨held, owner, hinv⟩ := refsInv_of_run h
  have href : stmt.ref .params = stmt.paramRef := rfl
  rcases hinv.refs hstmt .params with ⟨hunset, hbound⟩ | ⟨k, a, hk, -, hheld, hbound⟩
  · rw [hbound, ← href, hunset]
    rfl
  · rw [hbound, ← href, hk, luaRawgeti, if_pos (Int.natCast_nonneg k), Int.toNat_natCast,
      (hinv.keeps.object hheld).2]
    rfl

/-- Two statements; the first is closed, and then the second is bound again. -/
theorem params_read_back_twoStatements :
    ∃ (hist : List (RefState ℕ × RefCall ℕ)) (s : RefState ℕ) (stmt : StmtRefs),
      Sysbench.Run refCall .start hist s ∧ s.stmts 0 = none ∧ s.stmts 1 = some stmt ∧
      luaRawgeti s.registry stmt.paramRef = some (.object 9) := by
  have h : Sysbench.Run.play refCall (.start : RefState ℕ)
      [.prepare, .bindParam 0 7 0, .prepare, .bindParam 1 8 1, .close 0, .bindParam 1 9 2]
      = some (_, _) := rfl
  have hrun := Sysbench.Run.of_play h
  exact ⟨_, _, _, hrun, rfl, rfl, params_read_back hrun (i := 1) rfl⟩

/-! ## The registry grows

Without results the free references are lost at each `db_close`, and so is every slot but at most
the one that the first gives back. -/

/-- The slots that are in use, or hold a number. -/
def occupied (t : RefTable T) : Set ℕ := {k | k ≠ 0 ∧ (t k).isSome}

/-- A call binds the parameters of a statement. -/
def RefCall.bindsParam : RefCall T → Bool
  | .bindParam _ _ _ => true
  | _ => false

/-- A call binds the results of a statement. -/
def RefCall.bindsResult : RefCall T → Bool
  | .bindResult _ _ _ => true
  | _ => false

/-- The number of times that parameters were bound. -/
def paramBinds (hist : List (RefState T × RefCall T)) : ℕ := hist.countP (·.2.bindsParam)

theorem occupied_bind {t : RefTable T} {n : ℕ} (hn : t.IsBorder n) (hlink : t.link 0 = 0) (a : T) :
    occupied (t.ref n a).2 = insert (n + 1) (occupied t) ∧ n + 1 ∉ occupied t ∧
      (t.ref n a).2 0 = t 0 := by
  rw [RefTable.ref, if_neg (not_not.mpr hlink)]
  dsimp only
  refine ⟨?_, fun hmem => ?_, Function.update_of_ne (Nat.succ_ne_zero n).symm _ _⟩
  · ext k
    rcases eq_or_ne k (n + 1) with rfl | hne
    · simp [occupied]
    · simp [occupied, hne]
  · have hsome := hmem.2
    rw [hn.2] at hsome
    cases hsome

theorem occupied_unref {t : RefTable T} {k : ℕ} (hk : k ∈ occupied t) :
    occupied (t.unref k) = if (t 0).isSome then occupied t else occupied t \ {k} := by
  have hk0 := hk.1
  ext j
  rcases eq_or_ne j 0 with rfl | hj0
  · split_ifs <;> simp [occupied]
  rcases eq_or_ne j k with rfl | hjk
  · split_ifs with h0 <;> simp [occupied, RefTable.unref, hj0, h0, hk.2]
  · split_ifs <;> simp [occupied, RefTable.unref, hj0, hjk]

theorem occupied_unref_zero (t : RefTable T) : occupied (t.unref 0) = occupied t := by
  ext j
  rcases eq_or_ne j 0 with rfl | hj0
  · simp [occupied]
  · simp [occupied, RefTable.unref, hj0]

/-- **What a script that binds no results leaves in the registry.** -/
structure Growing (hist : List (RefState T × RefCall T)) (s : RefState T) : Prop where
  unbound : ∀ {i stmt}, s.stmts i = some stmt → stmt.resultRef = 0
  finite : (occupied s.registry).Finite
  count : s.registry 0 = none ∧ (occupied s.registry).ncard = paramBinds hist ∨
    s.registry 0 = some (.number 0) ∧ ((occupied s.registry).ncard = paramBinds hist ∨
      (occupied s.registry).ncard + 1 = paramBinds hist)

theorem growing_start : Growing [] (RefState.start : RefState T) where
  unbound := fun h => nomatch h
  finite := by simp [occupied, RefState.start]
  count := .inl ⟨rfl, by simp [occupied, RefState.start, paramBinds]⟩

theorem Growing.link (h : Growing hist s) : s.registry.link 0 = 0 := by
  rcases h.count with ⟨h0, -⟩ | ⟨h0, -⟩ <;> rw [RefTable.link, h0]

theorem paramBinds_concat (hist : List (RefState T × RefCall T)) (e : RefState T × RefCall T) :
    paramBinds (hist ++ [e]) = paramBinds hist + e.2.bindsParam.toNat :=
  countP_concat _ _ _

/-- One statement is set or removed, and it has no results. -/
theorem Growing.unbound_update (h : Growing hist s) {i : ℕ} {o : Option StmtRefs}
    (ho : ∀ stmt, o = some stmt → stmt.resultRef = 0) {j : ℕ} {st : StmtRefs}
    (hst : Function.update s.stmts i o j = some st) : st.resultRef = 0 := by
  rcases eq_or_ne j i with rfl | hne
  · rw [Function.update_self] at hst
    exact ho st hst
  · rw [Function.update_of_ne hne] at hst
    exact h.unbound hst

theorem Growing.prepare (h : Growing hist s) (hs : refCall s .prepare = some s') :
    Growing (hist ++ [(s, .prepare)]) s' := by
  obtain rfl := Option.some.inj hs
  refine ⟨h.unbound_update fun stmt hstmt => ?_, h.finite, ?_⟩
  · obtain rfl := Option.some.inj hstmt
    rfl
  · rw [paramBinds_concat]
    exact h.count

/-- To bind parameters takes a slot that was never used. -/
theorem Growing.bindParam (h : Growing hist s) {i border : ℕ} {table : T}
    (hs : refCall s (.bindParam i table border) = some s') :
    Growing (hist ++ [(s, .bindParam i table border)]) s' := by
  obtain ⟨stmt, hstmt, hs⟩ := Option.bind_eq_some_iff.mp hs
  split_ifs at hs with hborder
  obtain rfl := Option.some.inj hs
  obtain ⟨hocc, hnew, h0⟩ := occupied_bind hborder h.link table
  refine ⟨h.unbound_update fun st hst => ?_, ?_, ?_⟩
  · obtain rfl := Option.some.inj hst
    have hunbound : stmt.resultRef = 0 := h.unbound hstmt
    exact hunbound
  · dsimp only
    rw [hocc]
    exact h.finite.insert _
  · have hcard := Set.ncard_insert_of_notMem hnew h.finite
    rw [paramBinds_concat]
    dsimp only
    rw [hocc, h0, hcard]
    exact h.count.imp (And.imp_right (congrArg (· + 1)))
      (And.imp_right (Or.imp (congrArg (· + 1)) (congrArg (· + 1))))

/-- What is in use once the slot of a statement's parameters is given back: one slot less, unless
another statement was closed before. -/
theorem Growing.occupied_unref_params (h : Growing hist s) {held : ℕ → Option T}
    {owner : ℕ → ℕ × BoundAs} (hinv : RefsInv (lastBound hist) s held owner) {i : ℕ}
    {stmt : StmtRefs} (hstmt : s.stmts i = some stmt) :
    (occupied (luaLUnref s.registry stmt.paramRef)).Finite ∧
      ((occupied (luaLUnref s.registry stmt.paramRef)).ncard = paramBinds hist ∨
        (occupied (luaLUnref s.registry stmt.paramRef)).ncard + 1 = paramBinds hist) := by
  rcases hinv.refs hstmt .params with ⟨hunset, -⟩ | ⟨k, a, hk, -, hheld, -⟩
  · have hnil : stmt.paramRef = luaRefNil := hunset
    rw [hnil]
    exact ⟨h.finite, h.count.elim (fun hc => .inl hc.2) And.right⟩
  · have href : stmt.paramRef = k := hk
    obtain ⟨hk0, hslot⟩ := hinv.keeps.object hheld
    have hmem : k ∈ occupied s.registry := ⟨hk0, by rw [hslot]; rfl⟩
    rw [href, luaLUnref, if_pos (Int.natCast_nonneg k), Int.toNat_natCast, occupied_unref hmem]
    rcases h.count with ⟨h0, hcount⟩ | ⟨h0, hcount⟩
    · rw [h0, Option.isSome_none, if_neg Bool.false_ne_true]
      refine ⟨h.finite.sdiff, .inr ?_⟩
      rw [Set.ncard_sdiff_singleton_add_one hmem h.finite, hcount]
    · rw [h0, Option.isSome_some, if_pos rfl]
      exact ⟨h.finite, hcount⟩

/-- To close a statement gives back the slot 0 in place of its results. -/
theorem Growing.close (h : Growing hist s) {held : ℕ → Option T} {owner : ℕ → ℕ × BoundAs}
    (hinv : RefsInv (lastBound hist) s held owner) {i : ℕ}
    (hs : refCall s (.close i) = some s') : Growing (hist ++ [(s, .close i)]) s' := by
  obtain ⟨stmt, hstmt, rfl⟩ := Option.map_eq_some_iff.mp hs
  have hzero : ∀ registry : RefTable T, luaLUnref registry stmt.resultRef = registry.unref 0 :=
    fun registry => by rw [h.unbound hstmt]; rfl
  obtain ⟨hfinite, hcount⟩ := h.occupied_unref_params hinv hstmt
  refine ⟨h.unbound_update fun st hst => ?_, ?_, .inr ⟨?_, ?_⟩⟩
  · cases hst
  · dsimp only
    rw [hzero, occupied_unref_zero]
    exact hfinite
  · dsimp only
    rw [hzero, RefTable.unref, Function.update_self]
  · dsimp only
    rw [paramBinds_concat, hzero, occupied_unref_zero]
    exact hcount

theorem Growing.step (h : Growing hist s)
    (hinv : ∃ held owner, RefsInv (lastBound hist) s held owner)
    {c : RefCall T} (hc : c.bindsResult = false) (hs : refCall s c = some s') :
    Growing (hist ++ [(s, c)]) s' := by
  cases c with
  | prepare => exact h.prepare hs
  | bindParam i table border => exact h.bindParam hs
  | bindResult => cases hc
  | close i =>
    obtain ⟨held, owner, hinv⟩ := hinv
    exact h.close hinv hs

/-- **No slot is used again**: in every run in which no results are bound the registry has as many
slots in use as parameters were bound, or one less, however many of the statements are closed. -/
theorem registry_grows (h : Sysbench.Run refCall .start hist s)
    (hresult : ∀ e ∈ hist, e.2.bindsResult = false) :
    (occupied s.registry).ncard = paramBinds hist ∨
      (occupied s.registry).ncard + 1 = paramBinds hist := by
  have hboth := h.induction (fun hist s => (∃ held owner, RefsInv (lastBound hist) s held owner) ∧
    ((∀ e ∈ hist, e.2.bindsResult = false) → Growing hist s))
    ⟨⟨_, _, refsInv_start⟩, fun _ => growing_start⟩ fun hist s c s' hI hs => by
      obtain ⟨⟨held, owner, hinv⟩, hgrowing⟩ := hI
      refine ⟨hinv.step hs, fun hall => ?_⟩
      rw [List.forall_mem_append, List.forall_mem_singleton] at hall
      exact (hgrowing hall.1).step ⟨held, owner, hinv⟩ hall.2 hs
  exact (hboth.2 hresult).count.elim (fun hc => .inl hc.2) And.right

/-- Two statements, one after the other. -/
theorem registry_grows_twoStatements :
    ∃ (hist : List (RefState ℕ × RefCall ℕ)) (s : RefState ℕ),
      Sysbench.Run refCall .start hist s ∧ s.stmts 0 = none ∧ s.stmts 1 = none ∧
      paramBinds hist = 2 ∧
      ((occupied s.registry).ncard = paramBinds hist ∨
        (occupied s.registry).ncard + 1 = paramBinds hist) := by
  have h : Sysbench.Run.play refCall (.start : RefState ℕ)
      [.prepare, .bindParam 0 7 0, .close 0, .prepare, .bindParam 1 8 0, .close 1]
      = some (_, _) := rfl
  have hrun := Sysbench.Run.of_play h
  exact ⟨_, _, hrun, rfl, rfl, rfl, registry_grows hrun (by simp [RefCall.bindsResult])⟩

end Runs

end Sysbench.Scripting.Refs
