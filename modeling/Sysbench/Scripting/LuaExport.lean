import Sysbench.Options.FiniteMap

/-!
# Scripting/LuaExport — the options, as globals of an interpreter

`sb_lua_new_state` walks over the list of options: a switch on the type pushes what the option
converts to, and one `lua_setglobal` behind the switch takes it off the stack again.  The branches
for files and for options without a type push nothing, so there the call takes what somebody else
has left on the stack: the table of `luaopen_math` first, then nothing at all.

The export is faithful exactly if it comes to no such option (`luaExport_faithful_iff`).
-/

namespace Sysbench.Scripting

open Options

variable {F : Type}

/-! ## The interpreter -/

/-- What is on the stack: the values an option can have, and the tables of the libraries. -/
inductive StackValue (F : Type)
  | nil
  | boolean (b : Bool)
  | number (x : F)
  | text (s : CStr)
  | table (name : String)
  deriving DecidableEq

/-- The interpreter, with the top of its stack first, and the options a warning was logged for. -/
structure LuaState (F : Type) where
  stack : List (StackValue F)
  globals : CStr → StackValue F
  warned : List CStr

/-- Why the loop is left: `sb_opt_to_int` ends the program, or `lua_setglobal` finds nothing to
take. -/
inductive ExportStop
  | invalidInt (name value : CStr)
  | emptyStack
  deriving DecidableEq

/-- `lua_push*`. -/
def LuaState.push (L : LuaState F) (v : StackValue F) : LuaState F :=
  { L with stack := v :: L.stack }

/-- `lua_setglobal`. -/
def LuaState.setGlobal (L : LuaState F) (name : CStr) : Except ExportStop (LuaState F) :=
  match L.stack with
  | [] => .error .emptyStack
  | v :: stack => .ok { L with stack := stack, globals := Function.update L.globals name v }

/-! ## The loop -/

/-- What the language and its library do with numbers: `sscanf`, the contents of a variable that is
not initialized, and the conversion of an integer to `lua_Number`. -/
structure Doubles (F : Type) where
  sscanf : CStr → Option F
  uninitialized : Opt → F
  ofInt : ℤ → F

variable [Zero F] (d : Doubles F)

/-- The switch of `sb_lua_new_state`. -/
def pushOption (L : LuaState F) (o : Opt) : Except ExportStop (LuaState F) :=
  match o.type with
  | .flag => .ok (L.push (.boolean (sbOptToFlag o)))
  | .int =>
    match sbOptToInt o with
    | .ok value => .ok (L.push (.number (d.ofInt value)))
    | .error (name, value) => .error (.invalidInt name value)
  | .float => .ok (L.push (.number (sbOptToFloat d.sscanf (d.uninitialized o) o)))
  | .size => .ok (L.push (.number (d.ofInt (sbOptToSize o))))
  | .string => .ok (L.push (.text ((sbOptToString o).getD (.lit ""))))
  | .list => .ok (L.push .nil)
  | .file => .ok L
  -- the type is unknown, and a warning says so
  | .null => .ok { L with warned := L.warned ++ [o.name] }

/-- One turn of the loop. -/
def exportOption (L : LuaState F) (o : Opt) : Except ExportStop (LuaState F) := do
  let L ← pushOption d L o
  L.setGlobal o.name

/-- The loop over all options. -/
def exportOptions (L : LuaState F) (store : Store) : Except ExportStop (LuaState F) :=
  store.foldlM (exportOption d) L

/-! ## What is expected of it -/

/-- What the global of an option should hold. -/
def convertedValue (o : Opt) : StackValue F :=
  match o.type with
  | .flag => .boolean (sbOptToFlag o)
  | .int => (sbOptToInt o).toOption.elim .nil fun value => .number (d.ofInt value)
  | .float => .number (sbOptToFloat d.sscanf (d.uninitialized o) o)
  | .size => .number (d.ofInt (sbOptToSize o))
  | .string => .text ((sbOptToString o).getD (.lit ""))
  | .list | .file | .null => .nil

/-- Whenever `lua_setglobal` is called, there is something on the stack that the loop has pushed. -/
def PopsOwn (L : LuaState F) (store : Store) : Prop :=
  ∀ before o after L₁ L₂, store = before ++ o :: after → exportOptions d L before = .ok L₁ →
    pushOption d L₁ o = .ok L₂ → L.stack.length < L₂.stack.length

/-- **A faithful export**: the loop only takes what it has pushed; it comes to its end, unless the
program is ended for an integer that is none; and then the stack is as high as before, and every
option has its value. -/
structure FaithfulExport (L : LuaState F) (store : Store) : Prop where
  popsOwn : PopsOwn d L store
  ends : ∀ stop, exportOptions d L store = .error stop → ∃ o ∈ store, ∃ name value,
    o.type = .int ∧ sbOptToInt o = .error (name, value) ∧ stop = .invalidInt name value
  height : ∀ L', exportOptions d L store = .ok L' → L'.stack.length = L.stack.length
  globals : ∀ L', exportOptions d L store = .ok L' →
    ∀ o ∈ store, L'.globals o.name = convertedValue d o

/-- The option does not end the program. -/
def converts (o : Opt) : Bool :=
  match o.type with
  | .int => (sbOptToInt o).isOk
  | _ => true

/-- The type has a branch in the switch that pushes something. -/
def pushes (o : Opt) : Bool :=
  match o.type with
  | .file | .null => false
  | _ => true

/-! ## One turn -/

variable {d} {L L' : LuaState F} {o : Opt} {store : Store}

/-- The stack is left alone by the branches that push nothing. -/
theorem pushOption_of_not_pushes (h : pushes o = false) :
    ∃ L', pushOption d L o = .ok L' ∧ L'.stack = L.stack := by
  cases ht : o.type <;> simp_all [pushes, pushOption]

theorem pushOption_of_not_converts (h : converts o = false) :
    ∃ name value, o.type = .int ∧ sbOptToInt o = .error (name, value) ∧
      pushOption d L o = .error (.invalidInt name value) := by
  cases ht : o.type <;> simp only [converts, ht, reduceCtorEq] at h
  cases hint : sbOptToInt o with
  | ok value => simp [hint, Except.isOk, Except.toBool] at h
  | error e => exact ⟨e.1, e.2, rfl, rfl, by simp only [pushOption, ht, hint]⟩

theorem pushOption_of_pushes (hp : pushes o = true) (hc : converts o = true) :
    pushOption d L o = .ok (L.push (convertedValue d o)) := by
  cases ht : o.type <;> simp only [pushes, ht, Bool.false_eq_true] at hp <;>
    simp only [pushOption, convertedValue, ht]
  cases hint : sbOptToInt o with
  | ok value => rfl
  | error e => simp [converts, ht, hint, Except.isOk, Except.toBool] at hc

theorem converts_of_pushOption (h : pushOption d L o = .ok L') : converts o = true := by
  by_contra hnot
  obtain ⟨name, value, -, -, herr⟩ :=
    pushOption_of_not_converts (d := d) (L := L) (Bool.eq_false_of_not_eq_true hnot)
  exact absurd (herr.symm.trans h) (by simp)

/-- A turn for an option that is pushed. -/
theorem exportOption_of_pushes (hp : pushes o = true) (hc : converts o = true) :
    exportOption d L o
      = .ok { L with globals := Function.update L.globals o.name (convertedValue d o) } := by
  rw [exportOption, pushOption_of_pushes hp hc]
  rfl

/-! ## The loop -/

/-- The globals, with those of the options set one after the other. -/
def setGlobals (d : Doubles F) (globals : CStr → StackValue F) (store : Store) :
    CStr → StackValue F :=
  store.foldl (fun g o => Function.update g o.name (convertedValue d o)) globals

theorem setGlobals_of_notMem {globals : CStr → StackValue F} {name : CStr}
    (h : name ∉ store.map Opt.name) : setGlobals d globals store name = globals name := by
  induction store generalizing globals with
  | nil => rfl
  | cons o store ih =>
    rw [List.map_cons, List.mem_cons, not_or] at h
    rw [setGlobals, List.foldl_cons, ← setGlobals, ih h.2, Function.update_of_ne h.1]

/-- Names are stored once, so what is set for an option stays. -/
theorem setGlobals_of_mem {globals : CStr → StackValue F} (hnodup : (store.map Opt.name).Nodup)
    (ho : o ∈ store) : setGlobals d globals store o.name = convertedValue d o := by
  induction store generalizing globals with
  | nil => exact absurd ho List.not_mem_nil
  | cons x store ih =>
    rw [List.map_cons, List.nodup_cons] at hnodup
    rw [setGlobals, List.foldl_cons, ← setGlobals]
    rcases List.mem_cons.mp ho with rfl | ho
    · rw [setGlobals_of_notMem hnodup.1, Function.update_self]
    · exact ih hnodup.2 ho

theorem exportOptions_cons (o : Opt) (store : Store) :
    exportOptions d L (o :: store)
      = exportOption d L o >>= fun L' => exportOptions d L' store :=
  List.foldlM_cons

/-- **Options that are pushed and convert leave the stack as it was.** -/
theorem exportOptions_of_pushes (h : ∀ o ∈ store, pushes o = true ∧ converts o = true) :
    exportOptions d L store = .ok { L with globals := setGlobals d L.globals store } := by
  induction store generalizing L with
  | nil => rfl
  | cons o store ih =>
    rw [List.forall_mem_cons] at h
    rw [exportOptions_cons, exportOption_of_pushes h.1.1 h.1.2]
    exact ih h.2

theorem exportOptions_append (before after : Store) :
    exportOptions d L (before ++ after)
      = exportOptions d L before >>= fun L' => exportOptions d L' after :=
  List.foldlM_append

/-- The loop does not get past an option that ends the program. -/
theorem converts_of_exportOptions (h : exportOptions d L store = .ok L') :
    ∀ o ∈ store, converts o = true := by
  induction store generalizing L with
  | nil => exact fun o ho => absurd ho List.not_mem_nil
  | cons o store ih =>
    rw [exportOptions_cons, exportOption, bind_assoc] at h
    obtain ⟨L₁, hpush, h⟩ := except_bind_eq_ok.mp h
    obtain ⟨L₂, -, h⟩ := except_bind_eq_ok.mp h
    rw [List.forall_mem_cons]
    exact ⟨converts_of_pushOption hpush, ih h⟩

/-- **What the loop comes to**: it exports the options as long as they convert, and is left at the
first that does not. -/
theorem exportOptions_takeWhile (hpush : ∀ o ∈ store.takeWhile converts, pushes o = true) :
    (store.takeWhile converts = store ∧
      exportOptions d L store = .ok { L with globals := setGlobals d L.globals store }) ∨
    ∃ o ∈ store, ∃ name value, o.type = .int ∧ sbOptToInt o = .error (name, value) ∧
      exportOptions d L store = .error (.invalidInt name value) := by
  have hall : ∀ o ∈ store.takeWhile converts, pushes o = true ∧ converts o = true :=
    fun o ho => ⟨hpush o ho, List.mem_takeWhile_imp ho⟩
  have hsplit : store.takeWhile converts ++ store.dropWhile converts = store :=
    List.takeWhile_append_dropWhile
  cases hdrop : store.dropWhile converts with
  | nil =>
    rw [hdrop, List.append_nil] at hsplit
    rw [hsplit] at hall
    exact .inl ⟨hsplit, exportOptions_of_pushes hall⟩
  | cons o after =>
    have hnot : converts o = false := by
      have := List.head?_dropWhile_not converts store
      simpa [hdrop] using this
    have hmem : o ∈ store := by
      rw [← hsplit, hdrop]
      exact List.mem_append_right _ (List.mem_cons_self ..)
    obtain ⟨name, value, hint, herr, hpushed⟩ := pushOption_of_not_converts (d := d)
      (L := { L with globals := setGlobals d L.globals (store.takeWhile converts) }) hnot
    refine .inr ⟨o, hmem, name, value, hint, herr, ?_⟩
    rw [← hsplit, hdrop, exportOptions_append, exportOptions_of_pushes hall]
    change exportOptions d _ (o :: after) = _
    rw [exportOptions_cons, exportOption, hpushed]
    rfl

/-- Where the loop gets to an option, the options up to it are among those it comes to. -/
theorem mem_takeWhile_of_reached {before after : Store} {L₁ L₂ : LuaState F}
    (hstore : store = before ++ o :: after) (hbefore : exportOptions d L before = .ok L₁)
    (hpush : pushOption d L₁ o = .ok L₂) : ∀ x ∈ before ++ [o], x ∈ store.takeWhile converts := by
  have hconv : ∀ x ∈ before ++ [o], converts x = true := by
    rw [List.forall_mem_append, List.forall_mem_singleton]
    exact ⟨converts_of_exportOptions hbefore, converts_of_pushOption hpush⟩
  have hcut : store = (before ++ [o]) ++ after := by simp [hstore]
  intro x hx
  rw [hcut, List.takeWhile_append_of_pos hconv]
  exact List.mem_append_left _ hx

/-- **The loop only takes what it has pushed**, as long as each option it comes to is pushed. -/
theorem popsOwn_of_pushes (hall : ∀ o ∈ store.takeWhile converts, pushes o = true) :
    PopsOwn d L store := by
  intro before o after L₁ L₂ hstore hbefore hpush
  have hmem := mem_takeWhile_of_reached hstore hbefore hpush
  rw [List.forall_mem_append, List.forall_mem_singleton] at hmem
  have hbalanced : ∀ x ∈ before, pushes x = true ∧ converts x = true := fun x hx =>
    ⟨hall x (hmem.1 x hx), converts_of_exportOptions hbefore x hx⟩
  cases (exportOptions_of_pushes hbalanced).symm.trans hbefore
  cases (pushOption_of_pushes (hall o hmem.2) (converts_of_pushOption hpush)).symm.trans hpush
  exact Nat.lt_succ_self _

/-- The first option that is reached and pushes nothing. -/
theorem exists_first_of_not (h : ¬ ∀ o ∈ store.takeWhile converts, pushes o = true) :
    ∃ before o after, store = before ++ o :: after ∧
      (∀ x ∈ before, pushes x = true ∧ converts x = true) ∧ pushes o = false := by
  push Not at h
  obtain ⟨o, hfind⟩ := Option.isSome_iff_exists.mp (List.find?_isSome (p := fun o => !pushes o).mpr
    (by simpa using h))
  obtain ⟨hnot, before, after, htake, hbefore⟩ := List.find?_eq_some_iff_append.mp hfind
  refine ⟨before, o, after ++ store.dropWhile converts, ?_, fun x hx => ⟨?_, ?_⟩, ?_⟩
  · rw [← List.cons_append, ← List.append_assoc, ← htake, List.takeWhile_append_dropWhile]
  · simpa using hbefore x hx
  · exact List.mem_takeWhile_imp (htake ▸ List.mem_append_left _ hx)
  · simpa using hnot

/-- **The export is faithful exactly if it comes to no file and no option without a type.** -/
theorem luaExport_faithful_iff (hs : WellFormed store) :
    FaithfulExport d L store ↔ ∀ o ∈ store.takeWhile converts, o.type ≠ .file ∧ o.type ≠ .null := by
  have hpushes : ∀ o : Opt, pushes o = true ↔ o.type ≠ .file ∧ o.type ≠ .null := by
    intro o
    cases ht : o.type <;> simp [pushes, ht]
  simp only [← hpushes]
  constructor
  · intro hfaithful
    by_contra hsome
    -- the first option that is reached and pushes nothing takes an element of the stack before
    obtain ⟨before, o, after, hstore, hbefore, hnot⟩ := exists_first_of_not hsome
    obtain ⟨L₂, hpush, hstack⟩ := pushOption_of_not_pushes (d := d)
      (L := { L with globals := setGlobals d L.globals before }) hnot
    have hlt := hfaithful.popsOwn before o after _ L₂ hstore (exportOptions_of_pushes hbefore) hpush
    rw [hstack] at hlt
    exact absurd hlt (lt_irrefl _)
  · intro hall
    have hcome := exportOptions_takeWhile (d := d) (L := L) hall
    refine ⟨?_, ?_, ?_, ?_⟩
    · exact popsOwn_of_pushes hall
    · intro stop hstop
      rcases hcome with ⟨-, hok⟩ | ⟨o, ho, name, value, hint, herr, hend⟩
      · exact absurd (hok.symm.trans hstop) (by simp)
      · cases hend.symm.trans hstop
        exact ⟨o, ho, name, value, hint, herr, rfl⟩
    · intro L' hL'
      rcases hcome with ⟨-, hok⟩ | ⟨o, ho, name, value, hint, herr, hend⟩
      · cases hok.symm.trans hL'
        rfl
      · exact absurd (hend.symm.trans hL') (by simp)
    · intro L' hL' o ho
      rcases hcome with ⟨-, hok⟩ | ⟨x, hx, name, value, hint, herr, hend⟩
      · cases hok.symm.trans hL'
        exact setGlobals_of_mem hs.nodup ho
      · exact absurd (hend.symm.trans hL') (by simp)

/-- The interpreter before the loop: `luaopen_math` has left its table. -/
def freshState : LuaState ℤ := ⟨[.table "math"], fun _ => .nil, []⟩

/-- Numbers, where no option is a `double`. -/
def wholeNumbers : Doubles ℤ := ⟨fun _ => none, fun _ => 0, id⟩

/-- Options of different types. -/
def plainOptions : Store :=
  [⟨⟨.int, [.lit "4"], false⟩, .lit "num_threads"⟩, ⟨⟨.flag, [], false⟩, .lit "debug"⟩,
    ⟨⟨.string, [.lit "mysql"], false⟩, .lit "db_driver"⟩,
    ⟨⟨.list, [], false⟩, .lit "report_checkpoints"⟩]

theorem luaExport_faithful_plainOptions :
    WellFormed plainOptions ∧ FaithfulExport wholeNumbers freshState plainOptions := by
  have hs : WellFormed plainOptions := ⟨by decide, by decide⟩
  exact ⟨hs, (luaExport_faithful_iff hs).mpr (by decide)⟩

/-- The option `--config-file`, as the program registers it. -/
def configFile : Opt := ⟨⟨.file, [], false⟩, .lit "config_file"⟩

/-- **The option `--config-file`**: its global is the table of `math`, which is gone from the
stack. -/
theorem luaExport_configFile :
    WellFormed [configFile] ∧
    (∃ L', exportOptions wholeNumbers freshState [configFile] = .ok L' ∧ L'.stack = [] ∧
      L'.globals configFile.name = .table "math") ∧
    ¬ FaithfulExport wholeNumbers freshState [configFile] := by
  refine ⟨⟨by decide, by decide⟩, ⟨_, rfl, rfl, ?_⟩, fun hfaithful => ?_⟩
  · simp only [Function.update_self]
  · exact absurd (hfaithful.height _ rfl) (by decide)

end Sysbench.Scripting
