import Sysbench.Options.Store

/-!
# Options/FiniteMap — the options as a finite map

Two names are the same when their **keys** are: the names with dashes converted.  The list of
options represents the map from keys to entries that its lookups see (`toMap`), and every entry
point is a sequence of assignments to that map (`Setting`), whatever is in the list.  Assignments to
different keys commute, so the order of the options on a command line does not matter.
-/

namespace Sysbench.Options

/-! ## Keys -/

theorem convertDash_convertDash (c : UInt8) : convertDash (convertDash c) = convertDash c := by
  unfold convertDash
  split_ifs with h h'
  · rfl
  · rfl
  · rfl

theorem convertDashes_convertDashes (s : CStr) :
    convertDashes (convertDashes s) = convertDashes s := by
  ext1
  simp [convertDashes, convertDash_convertDash]

/-- A name without dashes. -/
@[ext] structure Key where
  name : CStr
  plain : convertDashes name = name
  deriving DecidableEq

/-- The key of a name. -/
def key (name : CStr) : Key := ⟨convertDashes name, convertDashes_convertDashes name⟩

theorem key_eq_iff {s t : CStr} : key s = key t ↔ convertDashes s = convertDashes t := Key.ext_iff

@[simp] theorem key_name (k : Key) : key k.name = k := Key.ext k.plain

@[simp] theorem key_convertDashes (s : CStr) : key (convertDashes s) = key s :=
  Key.ext (convertDashes_convertDashes s)

theorem charValue_eq_iff {a b : UInt8} : charValue a = charValue b ↔ a = b := by
  refine ⟨fun h => ?_, congrArg charValue⟩
  have hbyte := congrArg Int8.toUInt8 (Int8.toInt_inj.mp h)
  rwa [UInt8.toUInt8_toInt8, UInt8.toUInt8_toInt8] at hbyte

theorem convertDash_eq_iff {a b : UInt8} :
    convertDash a = convertDash b ↔ a = b ∨ (isDash a && isDash b) = true := by
  unfold convertDash isDash
  split_ifs with ha hb hb
  · simp [ha, hb]
  · simp only [ha, decide_true, Bool.true_or, Bool.true_and, hb, decide_false, Bool.false_or,
      decide_eq_true_eq]
    exact ⟨fun h => .inr h.symm, fun h => h.elim (fun h => absurd h.symm hb) Eq.symm⟩
  · simp only [hb, decide_true, Bool.true_or, Bool.and_true, ha, decide_false, Bool.false_or,
      decide_eq_true_eq, false_or]
  · simp only [ha, hb, decide_false, Bool.false_or, Bool.and_eq_true, decide_eq_true_eq]
    exact ⟨.inl, fun h => h.elim id fun h => h.1.trans h.2.symm⟩

/-- **The comparison of names is that of their keys.** -/
theorem optNameCmp_eq_zero_iff : ∀ {s t : List UInt8}, 0 ∉ s → 0 ∉ t →
    (optNameCmp s t = 0 ↔ s.map convertDash = t.map convertDash)
  | [], [], _, _ => by simp [optNameCmp]
  | [], b :: t, _, ht => by
    have hb : charValue b ≠ charValue 0 := fun h => ht (charValue_eq_iff.mp h ▸ List.mem_cons_self)
    have hb0 : charValue b ≠ 0 := hb
    simpa [optNameCmp] using hb0
  | a :: s, [], hs, _ => by
    have ha : charValue a ≠ charValue 0 := fun h => hs (charValue_eq_iff.mp h ▸ List.mem_cons_self)
    have ha0 : charValue a ≠ 0 := ha
    simpa [optNameCmp] using ha0
  | a :: s, b :: t, hs, ht => by
    have ih : optNameCmp s t = 0 ↔ s.map convertDash = t.map convertDash :=
      optNameCmp_eq_zero_iff (fun h => hs (List.mem_cons_of_mem _ h))
        (fun h => ht (List.mem_cons_of_mem _ h))
    simp only [optNameCmp, List.map_cons, List.cons.injEq, convertDash_eq_iff]
    split_ifs with hab hdash
    · simp [hab, ih]
    · have hne : charValue a - charValue b ≠ 0 :=
        fun h => hab (charValue_eq_iff.mp (sub_eq_zero.mp h))
      refine iff_of_false hne fun h => ?_
      rcases h.1 with h | h
      · exact hab h
      · cases hd : isDash a <;> simp_all
    · have hboth : (isDash a && isDash b) = true := by
        cases ha : isDash a <;> cases hb : isDash b <;> simp_all
      simp [hboth, ih]

theorem named_iff {o : Opt} {n : CStr} : o.named n = true ↔ key o.name = key n := by
  rw [Opt.named, decide_eq_true_iff, optNameCmp_eq_zero_iff o.name.noNul n.noNul, key_eq_iff]
  exact ⟨fun h => CStr.ext h, fun h => congrArg CStr.bytes h⟩

/-- A lookup depends on the key alone. -/
theorem findOption_congr {s : Store} {n m : CStr} (h : key n = key m) :
    findOption s n = findOption s m := by
  unfold findOption
  congr 1
  funext o
  rw [Bool.eq_iff_iff, named_iff, named_iff, h]

/-! ## The map -/

/-- The entry of each key that has one. -/
abbrev OptionMap : Type := Key → Option Entry

/-- The entry of one key is changed by `f`, or made. -/
def OptionMap.assign (m : OptionMap) (k : Key) (f : Entry → Entry) : OptionMap :=
  Function.update m k (some (f ((m k).getD .new)))

/-- What lookups see of a list of options. -/
def toMap (s : Store) : OptionMap := fun k => (findOption s k.name).map (·.toEntry)

theorem toMap_key {s : Store} {n : CStr} : toMap s (key n) = (findOption s n).map (·.toEntry) := by
  rw [toMap, findOption_congr (key_name (key n))]

@[simp] theorem toMap_nil : toMap [] = fun _ => none := rfl

@[simp] theorem toMap_cons (o : Opt) (s : Store) :
    toMap (o :: s) = Function.update (toMap s) (key o.name) (some o.toEntry) := by
  ext1 k
  rw [toMap, findOption, List.find?_cons, Function.update_apply]
  by_cases hk : k = key o.name
  · have hnamed : o.named k.name = true := named_iff.mpr (by rw [key_name, hk])
    rw [hnamed, if_pos hk]
    rfl
  · have hnamed : o.named k.name = false :=
      Bool.eq_false_iff.mpr fun h => hk (by rw [named_iff.mp h, key_name])
    rw [hnamed, if_neg hk]
    rfl

/-- **`add_option` assigns to the key of the name it is given.** -/
theorem toMap_addOption (n : CStr) (f : Entry → Entry) (s : Store) :
    toMap (addOption n f s) = (toMap s).assign (key n) f := by
  induction s with
  | nil => rw [addOption, toMap_cons, key_convertDashes]; rfl
  | cons o s ih =>
    rw [addOption]
    split_ifs with hnamed
    · have hk := named_iff.mp hnamed
      rw [toMap_cons, toMap_cons, OptionMap.assign, ← hk, Function.update_self,
        Function.update_idem]
      rfl
    · have hk : key n ≠ key o.name := fun h => hnamed (named_iff.mpr h.symm)
      rw [toMap_cons, toMap_cons, ih, OptionMap.assign, OptionMap.assign,
        Function.update_of_ne hk, Function.update_comm hk]

/-! ## Lists that represent their map -/

/-- **Every name is stored once, under its key.** -/
structure WellFormed (s : Store) : Prop where
  plain : ∀ o ∈ s, convertDashes o.name = o.name
  nodup : (s.map Opt.name).Nodup

theorem wellFormed_nil : WellFormed [] := ⟨by simp, List.nodup_nil⟩

/-- `add_option` keeps the names, or adds one that is new. -/
theorem map_name_addOption (n : CStr) (f : Entry → Entry) (s : Store) :
    (addOption n f s).map Opt.name = s.map Opt.name ∨
      (∀ o ∈ s, key o.name ≠ key n) ∧
        (addOption n f s).map Opt.name = s.map Opt.name ++ [convertDashes n] := by
  induction s with
  | nil => exact .inr ⟨by simp, rfl⟩
  | cons o s ih =>
    rw [addOption]
    split_ifs with hnamed
    · exact .inl rfl
    · have hk : key o.name ≠ key n := fun h => hnamed (named_iff.mpr h)
      refine ih.imp (fun h => ?_) fun ⟨hnew, h⟩ => ⟨List.forall_mem_cons.mpr ⟨hk, hnew⟩, ?_⟩
      · rw [List.map_cons, h, List.map_cons]
      · rw [List.map_cons, h, List.map_cons, List.cons_append]

theorem WellFormed.addOption {s : Store} (hs : WellFormed s) (n : CStr) (f : Entry → Entry) :
    WellFormed (addOption n f s) := by
  have hplain : ∀ name ∈ s.map Opt.name, convertDashes name = name := by
    simpa using hs.plain
  rcases map_name_addOption n f s with h | ⟨hnew, h⟩
  · exact ⟨by simpa [← h] using hplain, h ▸ hs.nodup⟩
  · refine ⟨?_, ?_⟩
    · have hall : ∀ name ∈ (Options.addOption n f s).map Opt.name, convertDashes name = name := by
        rw [h, List.forall_mem_append, List.forall_mem_singleton]
        exact ⟨hplain, convertDashes_convertDashes n⟩
      simpa using hall
    · rw [h, List.nodup_append_comm, List.singleton_append, List.nodup_cons]
      refine ⟨fun hmem => ?_, hs.nodup⟩
      obtain ⟨o, ho, hname⟩ := List.mem_map.mp hmem
      exact hnew o ho (by rw [hname, key_convertDashes])

/-- What a lookup returns is the entry of the key, under the key. -/
theorem WellFormed.findOption_eq {s : Store} (hs : WellFormed s) (n : CStr) :
    findOption s n = (toMap s (key n)).map (⟨·, convertDashes n⟩) := by
  rw [toMap_key, Option.map_map]
  cases hfind : findOption s n with
  | none => rfl
  | some o =>
    have hname : convertDashes o.name = convertDashes n :=
      key_eq_iff.mp (named_iff.mp (List.find?_some hfind))
    rw [hs.plain o (List.mem_of_find?_eq_some hfind)] at hname
    simp [Function.comp_def, ← hname]

/-! ## What an operation assigns -/

/-- One name, with what it is set to; a configuration file leaves the type as it is. -/
structure Setting where
  name : CStr
  type : Option ArgType
  values : List CStr

/-- What becomes of the entry. -/
def Setting.apply (x : Setting) (e : Entry) : Entry := ⟨x.type.getD e.type, x.values, e.ignore⟩

/-- The options after a setting. -/
def Setting.store (s : Store) (x : Setting) : Store := addOption x.name x.apply s

/-- The lines `read_config` reads: it stops behind one that is not complete. -/
def linesRead : List ConfigLine → List ConfigLine
  | [] => []
  | line :: lines => line :: if line.complete then linesRead lines else []

/-- What `read_config` sets. -/
def fileSettings (file : List UInt8) : List Setting :=
  (linesRead ((configBuffers file.length file).filterMap configLine)).map fun line =>
    ⟨line.name, none, line.values⟩

theorem readBuffers_eq (s : Store) (bufs : List (List UInt8)) :
    (readBuffers s bufs).1 = ((linesRead (bufs.filterMap configLine)).map fun line =>
      (⟨line.name, none, line.values⟩ : Setting)).foldl Setting.store s := by
  induction bufs generalizing s with
  | nil => rfl
  | cons buf bufs ih =>
    rw [readBuffers]
    cases hline : configLine buf with
    | none => rw [List.filterMap_cons_none hline]; exact ih s
    | some line =>
      rw [List.filterMap_cons_some hline, linesRead]
      dsimp only
      split_ifs
      · exact ih _
      · rfl

theorem readConfig_eq (s : Store) (file : List UInt8) :
    (readConfig s file).1 = (fileSettings file).foldl Setting.store s := readBuffers_eq s _

variable (fopen : CStr → Option (List UInt8))

/-- What `set_option` sets: the name, and what stands in the file it names. -/
def optionSettings (name : CStr) (value : Option CStr) (type : ArgType) : List Setting :=
  ⟨name, some type, valuesOf value type⟩ ::
    if type = .file ∧ isBlank value = false then ((value.bind fopen).map fileSettings).getD []
    else []

theorem setOption_eq (s : Store) (name : CStr) (value : Option CStr) (type : ArgType) :
    (setOption fopen s name value type).1
      = (optionSettings fopen name value type).foldl Setting.store s := by
  have hset : addOption name ({ · with type, values := valuesOf value type }) s
      = Setting.store s ⟨name, some type, valuesOf value type⟩ := rfl
  unfold setOption
  rw [hset, optionSettings, List.foldl_cons]
  cases type with
  | file =>
    cases hblank : isBlank value with
    | true => simp
    | false =>
      cases value with
      | none => cases hblank
      | some filename =>
        cases hopen : fopen filename with
        | none => simp [readConfigFile, hopen]
        | some file => simp [readConfigFile, hopen, readConfig_eq]
  | _ => simp only [reduceCtorEq, false_and, if_false, List.foldl_nil]; split_ifs <;> rfl

/-- `set_option` refuses the option. -/
def refuses (value : Option CStr) (type : ArgType) : Bool := type = .null && !isBlank value

theorem setOption_ok (s : Store) (name : CStr) (value : Option CStr) (type : ArgType) :
    (setOption fopen s name value type).2 = !refuses value type := by
  unfold setOption refuses
  cases type <;> cases isBlank value <;> rfl

/-- What `sb_register_arg_set` sets: it stops behind an argument that is refused. -/
def argSettings : List Arg → List Setting
  | [] => []
  | arg :: set => optionSettings fopen arg.name arg.value arg.type ++
      if refuses arg.value arg.type then [] else argSettings set

theorem sbRegisterArgSet_eq (s : Store) (set : List Arg) :
    (sbRegisterArgSet fopen s set).1 = (argSettings fopen set).foldl Setting.store s := by
  induction set generalizing s with
  | nil => rfl
  | cons arg set ih =>
    rw [sbRegisterArgSet, argSettings, List.foldl_append, ← setOption_eq, setOption_ok]
    cases refuses arg.value arg.type with
    | true => rfl
    | false => exact ih _

/-- The three ways to fill the list of options. -/
inductive Operation
  | registerArgSet (set : List Arg)
  | setOption (name : CStr) (value : Option CStr) (type : ArgType)
  | readConfig (file : List UInt8)

/-- The options after an operation. -/
def Operation.run (s : Store) : Operation → Store
  | .registerArgSet set => (sbRegisterArgSet fopen s set).1
  | .setOption name value type => (Options.setOption fopen s name value type).1
  | .readConfig file => (Options.readConfig s file).1

/-- The options after `sb_options_init` and these operations. -/
def runOperations (ops : List Operation) : Store := ops.foldl (Operation.run fopen) []

/-- What an operation sets. -/
def Operation.settings : Operation → List Setting
  | .registerArgSet set => argSettings fopen set
  | .setOption name value type => optionSettings fopen name value type
  | .readConfig file => fileSettings file

theorem Operation.run_eq (s : Store) (op : Operation) :
    op.run fopen s = (op.settings fopen).foldl Setting.store s := by
  cases op with
  | registerArgSet set => exact sbRegisterArgSet_eq fopen s set
  | setOption name value type => exact setOption_eq fopen s name value type
  | readConfig file => exact readConfig_eq s file

theorem runOperations_eq (ops : List Operation) :
    runOperations fopen ops = (ops.flatMap (Operation.settings fopen)).foldl Setting.store [] := by
  rw [List.foldl_flatMap, runOperations]
  congr
  funext s op
  exact op.run_eq fopen s

/-! ## A sequence of settings -/

variable {fopen}

theorem wellFormed_foldl {s : Store} (hs : WellFormed s) (xs : List Setting) :
    WellFormed (xs.foldl Setting.store s) := by
  induction xs generalizing s with
  | nil => exact hs
  | cons x xs ih => exact ih (hs.addOption x.name x.apply)

/-- Settings of other names leave the entry of a key alone. -/
theorem toMap_foldl_of_ne {k : Key} {xs : List Setting} (h : ∀ x ∈ xs, key x.name ≠ k) (s : Store) :
    toMap (xs.foldl Setting.store s) k = toMap s k := by
  induction xs generalizing s with
  | nil => rfl
  | cons x xs ih =>
    rw [List.forall_mem_cons] at h
    rw [List.foldl_cons, ih h.2, Setting.store, toMap_addOption]
    exact Function.update_of_ne h.1.symm _ _

/-- A key has an entry as soon as one of its names is set. -/
theorem isSome_toMap_foldl {k : Key} (xs : List Setting) (s : Store) :
    (toMap (xs.foldl Setting.store s) k).isSome ↔
      (toMap s k).isSome ∨ ∃ x ∈ xs, key x.name = k := by
  induction xs generalizing s with
  | nil => simp
  | cons x xs ih =>
    rw [List.foldl_cons, ih, Setting.store, toMap_addOption, OptionMap.assign,
      Function.update_apply]
    split_ifs with hk
    · simp [hk]
    · simp [Ne.symm hk]

/-- **The last setting of a name decides.** -/
theorem toMap_foldl_last {n : CStr} {pre post : List Setting} {x : Setting}
    (hx : key x.name = key n) (hpost : ∀ y ∈ post, key y.name ≠ key n) (s : Store) :
    toMap ((pre ++ x :: post).foldl Setting.store s) (key n)
      = some (x.apply ((toMap (pre.foldl Setting.store s) (key n)).getD .new)) := by
  rw [List.foldl_append, List.foldl_cons, toMap_foldl_of_ne hpost, Setting.store, toMap_addOption,
    hx]
  exact Function.update_self _ _ _

/-- **The list of options is a finite map** from names modulo dashes, filled by these settings. -/
structure FiniteMap (s : Store) (xs : List Setting) : Prop where
  noDash : ∀ o ∈ s, '-'.toUInt8 ∉ o.name.bytes
  distinct : (s.map Opt.name).Nodup
  found : ∀ n, (findOption s n).isSome ↔ ∃ x ∈ xs, key x.name = key n
  last : ∀ n pre x post, xs = pre ++ x :: post → key x.name = key n →
    (∀ y ∈ post, key y.name ≠ key n) →
    findOption s n = some ⟨x.apply
      ((findOption (pre.foldl Setting.store []) n).elim .new (·.toEntry)), convertDashes n⟩

/-- A name that is its own key has no dash. -/
theorem dash_notMem_of_plain {n : CStr} (h : convertDashes n = n) : '-'.toUInt8 ∉ n.bytes := by
  rw [← h]
  intro hmem
  obtain ⟨c, -, hc⟩ := List.mem_map.mp hmem
  unfold convertDash at hc
  split_ifs at hc with hdash
  · exact absurd hc (by decide)
  · exact hdash hc

theorem finiteMap_foldl (xs : List Setting) : FiniteMap (xs.foldl Setting.store []) xs := by
  have hs := wellFormed_foldl wellFormed_nil xs
  refine ⟨fun o ho => dash_notMem_of_plain (hs.plain o ho), hs.nodup, fun n => ?_, ?_⟩
  · rw [hs.findOption_eq, Option.isSome_map, isSome_toMap_foldl]
    simp
  · rintro n pre x post rfl hk hpost
    rw [hs.findOption_eq, toMap_foldl_last hk hpost,
      (wellFormed_foldl wellFormed_nil pre).findOption_eq]
    cases toMap (pre.foldl Setting.store []) (key n) <;> rfl

/-! ## The order of the options -/

theorem findOption_cons_of_ne {o : Opt} {s : Store} {n : CStr} (h : key o.name ≠ key n) :
    findOption (o :: s) n = findOption s n :=
  List.find?_cons_of_neg fun hnamed => h (named_iff.mp hnamed)

/-- **Other names keep their option.** -/
theorem findOption_addOption_of_ne {n n' : CStr} (h : key n ≠ key n') (f : Entry → Entry)
    (s : Store) : findOption (addOption n f s) n' = findOption s n' := by
  induction s with
  | nil => exact findOption_cons_of_ne (by rwa [key_convertDashes])
  | cons o s ih =>
    rw [addOption]
    split_ifs with hnamed
    · have ho : key o.name ≠ key n' := named_iff.mp hnamed ▸ h
      rw [findOption_cons_of_ne ho, findOption_cons_of_ne (o := ⟨f o.toEntry, o.name⟩) ho]
    · unfold findOption at ih ⊢
      rw [List.find?_cons, List.find?_cons, ih]

/-- Without a file to read `set_option` assigns to one name. -/
theorem setOption_store {type : ArgType} (hfile : type ≠ .file) (s : Store) (name : CStr)
    (value : Option CStr) : (setOption fopen s name value type).1
      = addOption name ({ · with type, values := valuesOf value type }) s := by
  rw [setOption_eq, optionSettings, if_neg fun h => hfile h.1]
  rfl

/-- The key of an option on the command line. -/
def optionKey (arg : CStr) : Key := key (splitOption arg).1

/-- One argument of the command line, on the map. -/
def mapArgument (st : Option (Command × OptionMap)) (arg : CStr) : Option (Command × OptionMap) :=
  st.bind fun st =>
    if isOption arg then
      let type := (st.2 (optionKey arg)).elim .string (·.type)
      if refuses (splitOption arg).2 type then none
      else some (st.1, st.2.assign (optionKey arg)
        ({ · with type, values := valuesOf (splitOption arg).2 type }))
    else if st.1 ≠ .null ∨ parseCommand arg = .null then none
    else some (parseCommand arg, st.2)

theorem assign_comm {m : OptionMap} {k k' : Key} (h : k ≠ k') (f g : Entry → Entry) :
    (m.assign k f).assign k' g = (m.assign k' g).assign k f := by
  unfold OptionMap.assign
  rw [Function.update_of_ne h.symm, Function.update_of_ne h, Function.update_comm h]

/-- Two arguments are not options of the same name. -/
def Different (x y : CStr) : Prop :=
  isOption x = true → isOption y = true → optionKey x ≠ optionKey y

instance : Std.Symm Different := ⟨fun _ _ h hy hx => (h hx hy).symm⟩

/-- An option of the command line, on the map. -/
def mapOption (m : OptionMap) (arg : CStr) : Option OptionMap :=
  let type := (m (optionKey arg)).elim .string (·.type)
  if refuses (splitOption arg).2 type then none
  else some (m.assign (optionKey arg)
    ({ · with type, values := valuesOf (splitOption arg).2 type }))

/-- A command, where there is none yet. -/
def mapCommand (c : Command) (arg : CStr) : Option Command :=
  if c ≠ .null ∨ parseCommand arg = .null then none else some (parseCommand arg)

/-- An option leaves the command. -/
theorem mapArgument_of_option {arg : CStr} (h : isOption arg = true)
    (st : Option (Command × OptionMap)) :
    mapArgument st arg = st.bind fun st => (mapOption st.2 arg).map (st.1, ·) := by
  refine congrArg st.bind (funext fun st => ?_)
  simp only [if_pos h, mapOption]
  split_ifs
  · rfl
  · rfl

/-- A command leaves the map. -/
theorem mapArgument_of_command {arg : CStr} (h : isOption arg = false)
    (st : Option (Command × OptionMap)) :
    mapArgument st arg = st.bind fun st => (mapCommand st.1 arg).map (·, st.2) := by
  refine congrArg st.bind (funext fun st => ?_)
  rw [if_neg (by simp [h]), mapCommand]
  split_ifs
  · rfl
  · rfl

/-- One of two commands is one too many. -/
theorem mapCommand_twice (c : Command) (x y : CStr) :
    (mapCommand c x).bind (mapCommand · y) = none := by
  unfold mapCommand
  split_ifs with h
  · rfl
  · exact if_pos (.inl fun hnull => h (.inr hnull))

/-- Options with different names commute: neither changes the other's type. -/
theorem mapOption_comm {x y : CStr} (h : optionKey x ≠ optionKey y) (m : OptionMap) :
    (mapOption m x).bind (mapOption · y) = (mapOption m y).bind (mapOption · x) := by
  have hxy : ∀ f, m.assign (optionKey x) f (optionKey y) = m (optionKey y) :=
    fun f => Function.update_of_ne h.symm _ _
  have hyx : ∀ f, m.assign (optionKey y) f (optionKey x) = m (optionKey x) :=
    fun f => Function.update_of_ne h _ _
  simp only [mapOption]
  split_ifs with hx hy hy
  · rfl
  · simp only [Option.bind_none, Option.bind_some, hyx, if_pos hx]
  · simp only [Option.bind_none, Option.bind_some, hxy, if_pos hy]
  · simp only [Option.bind_some, hxy, hyx, if_neg hx, if_neg hy, assign_comm h]

/-- An option and a command concern different things. -/
theorem mapArgument_option_command {x y : CStr} (hx : isOption x = true) (hy : isOption y = false)
    (st : Option (Command × OptionMap)) :
    mapArgument (mapArgument st x) y = mapArgument (mapArgument st y) x := by
  simp only [mapArgument_of_option hx, mapArgument_of_command hy]
  rcases st with _ | ⟨c, m⟩
  · rfl
  · cases ho : mapOption m x <;> cases hc : mapCommand c y <;> simp [ho, hc]

/-- **Arguments with different names commute.** -/
theorem mapArgument_comm {x y : CStr} (h : Different x y)
    (st : Option (Command × OptionMap)) :
    mapArgument (mapArgument st x) y = mapArgument (mapArgument st y) x := by
  cases st with
  | none => rfl
  | some st =>
    obtain ⟨c, m⟩ := st
    cases hx : isOption x <;> cases hy : isOption y
    · have hnone : ∀ x y, ((mapCommand c x).map (·, m)).bind
          (fun st => (mapCommand st.1 y).map (·, st.2)) = none := by
        intro x y
        have htwice := mapCommand_twice c x y
        cases hc : mapCommand c x with
        | none => rfl
        | some c' =>
          rw [hc, Option.bind_some] at htwice
          simp only [Option.map_some, Option.bind_some, htwice, Option.map_none]
      simp only [mapArgument_of_command hx, mapArgument_of_command hy, Option.bind_some, hnone]
    · exact (mapArgument_option_command hy hx _).symm
    · exact mapArgument_option_command hx hy _
    · have hpair : ∀ x y, ((mapOption m x).map (c, ·)).bind
          (fun st => (mapOption st.2 y).map (st.1, ·))
            = ((mapOption m x).bind (mapOption · y)).map (c, ·) := by
        intro x y
        cases mapOption m x <;> rfl
      simp only [mapArgument_of_option hx, mapArgument_of_option hy, Option.bind_some, hpair]
      rw [mapOption_comm (h hx hy)]

/-- The arguments in question: no command after which options are not read, and no option of type
`SB_ARG_TYPE_FILE`. -/
structure Plain (s : Store) (argv : List CStr) : Prop where
  command : ∀ arg ∈ argv, isOption arg = false →
    parseCommand arg ≠ .help ∧ parseCommand arg ≠ .version
  notFile : ∀ arg ∈ argv, isOption arg = true → typeFor s (splitOption arg).1 ≠ .file

theorem typeFor_eq {s : Store} {n : CStr} :
    typeFor s n = (toMap s (key n)).elim .string (·.type) := by
  rw [typeFor, toMap_key]
  cases findOption s n <;> rfl

/-- Assigning a type that is no file makes no option a file. -/
theorem typeFor_addOption_ne_file {s : Store} {n n' : CStr} {type : ArgType} {values : List CStr}
    (htype : type ≠ .file) (h : typeFor s n' ≠ .file) :
    typeFor (addOption n ({ · with type, values }) s) n' ≠ .file := by
  rw [typeFor_eq] at h ⊢
  rw [toMap_addOption, OptionMap.assign, Function.update_apply]
  split_ifs
  · exact htype
  · exact h

theorem foldl_mapArgument_none (argv : List CStr) : argv.foldl mapArgument none = none := by
  induction argv with
  | nil => rfl
  | cons arg argv ih => exact ih

/-- The map a parsed command line leaves behind. -/
def parsedMap (r : Except Stop (Command × Store)) : Option (Command × OptionMap) :=
  r.toOption.map fun st => (st.1, toMap st.2)

/-- One argument, on the list and on the map. -/
theorem parseArgument_cases {st : Command × Store} {arg : CStr}
    (hcmd : st.1 ≠ .help ∧ st.1 ≠ .version) (hplain : Plain st.2 [arg]) :
    (∃ e, parseArgument fopen st arg = .error e ∧
      mapArgument (some (st.1, toMap st.2)) arg = none) ∨
    ∃ st', parseArgument fopen st arg = .ok st' ∧
      mapArgument (some (st.1, toMap st.2)) arg = some (st'.1, toMap st'.2) ∧
      (st'.1 ≠ .help ∧ st'.1 ≠ .version) ∧ (WellFormed st.2 → WellFormed st'.2) ∧
      ∀ n, typeFor st.2 n ≠ .file → typeFor st'.2 n ≠ .file := by
  unfold parseArgument mapArgument
  simp only [Option.bind_some]
  cases hopt : isOption arg with
  | true =>
    have htype := hplain.notFile arg List.mem_cons_self hopt
    rw [if_pos rfl, if_neg hcmd.1, if_neg hcmd.2, if_pos rfl, setOption_ok,
      setOption_store htype, optionKey, ← typeFor_eq]
    cases hrefuse : refuses (splitOption arg).2 (typeFor st.2 (splitOption arg).1) with
    | true => exact .inl ⟨.refused, rfl, rfl⟩
    | false =>
      refine .inr ⟨_, rfl, ?_, hcmd, fun hs => hs.addOption _ _, fun n hn => ?_⟩
      · rw [toMap_addOption]
        rfl
      · exact typeFor_addOption_ne_file htype hn
  | false =>
    have hcommand := hplain.command arg List.mem_cons_self hopt
    simp only [Bool.false_eq_true, if_false]
    by_cases hnull : st.1 = .null
    · by_cases hparse : parseCommand arg = .null
      · exact .inl ⟨.unknownCommand arg, by rw [if_neg (not_not.mpr hnull), if_pos hparse],
          if_pos (.inr hparse)⟩
      · refine .inr ⟨(parseCommand arg, st.2), ?_, ?_, hcommand, id, fun _ => id⟩
        · rw [if_neg (not_not.mpr hnull), if_neg hparse]
        · rw [if_neg (not_or.mpr ⟨not_not.mpr hnull, hparse⟩)]
    · exact .inl ⟨.multipleCommands, if_pos hnull, if_pos (.inl hnull)⟩

/-- **The loop over the arguments, on the map.** -/
theorem parsedMap_foldlM {argv : List CStr} {st : Command × Store}
    (hcmd : st.1 ≠ .help ∧ st.1 ≠ .version) (hplain : Plain st.2 argv) (hs : WellFormed st.2) :
    parsedMap (argv.foldlM (parseArgument fopen) st)
        = argv.foldl mapArgument (some (st.1, toMap st.2)) ∧
      ∀ st', argv.foldlM (parseArgument fopen) st = .ok st' → WellFormed st'.2 := by
  induction argv generalizing st with
  | nil => exact ⟨rfl, fun st' h => Except.ok.inj h ▸ hs⟩
  | cons arg argv ih =>
    have hone : Plain st.2 [arg] :=
      ⟨by simpa using hplain.command arg List.mem_cons_self,
        by simpa using hplain.notFile arg List.mem_cons_self⟩
    rw [List.foldlM_cons, List.foldl_cons]
    rcases parseArgument_cases hcmd hone with ⟨e, he, hmap⟩ | ⟨st', hst', hmap, hcmd', hs', htype⟩
    · rw [he, hmap, foldl_mapArgument_none]
      exact ⟨rfl, fun st' h => by cases h⟩
    · rw [hst', hmap]
      refine ih hcmd' ⟨fun a ha => hplain.command a (List.mem_cons_of_mem _ ha),
        fun a ha hopt => ?_⟩
        (hs' hs)
      exact htype _ (hplain.notFile a (List.mem_cons_of_mem _ ha) hopt)

/-- Two command lines with the same outcome on the map are both refused, or leave the same command
and the same map behind. -/
theorem cases_of_parsedMap_eq {r r' : Except Stop (Command × Store)}
    (h : parsedMap r = parsedMap r') :
    (∃ e e', r = .error e ∧ r' = .error e') ∨
      ∃ c s₁ s₂, r = .ok (c, s₁) ∧ r' = .ok (c, s₂) ∧ toMap s₁ = toMap s₂ := by
  cases r with
  | error e =>
    cases r' with
    | error e' => exact .inl ⟨e, e', rfl, rfl⟩
    | ok st' => cases h
  | ok st =>
    cases r' with
    | error e' => cases h
    | ok st' =>
      obtain ⟨hc, hm⟩ := Prod.mk.inj (Option.some.inj h)
      exact .inr ⟨st.1, st.2, st'.2, rfl, congrArg Except.ok (Prod.ext hc.symm rfl), hm⟩

/-- **The order of the options does not matter**: both command lines are refused, or both leave the
same command and the same options behind. -/
theorem parseArguments_perm {s : Store} {argv argv' : List CStr} (hs : WellFormed s)
    (hplain : Plain s argv) (hperm : argv.Perm argv')
    (hdifferent : argv.Pairwise Different) :
    (∃ e e', parseArguments fopen s argv = .error e ∧ parseArguments fopen s argv' = .error e') ∨
    ∃ c s₁ s₂, parseArguments fopen s argv = .ok (c, s₁) ∧
      parseArguments fopen s argv' = .ok (c, s₂) ∧ ∀ n, findOption s₁ n = findOption s₂ n := by
  have hplain' : Plain s argv' :=
    ⟨fun a ha => hplain.command a (hperm.mem_iff.mpr ha),
      fun a ha => hplain.notFile a (hperm.mem_iff.mpr ha)⟩
  have hsim : ∀ {argv}, Plain s argv →
      parsedMap (parseArguments fopen s argv) = argv.foldl mapArgument (some (.null, toMap s)) ∧
        ∀ st, parseArguments fopen s argv = .ok st → WellFormed st.2 :=
    fun h => parsedMap_foldlM ⟨Command.noConfusion, Command.noConfusion⟩ h hs
  have hcomm : ∀ x ∈ argv, ∀ y ∈ argv, ∀ st,
      mapArgument (mapArgument st x) y = mapArgument (mapArgument st y) x := by
    intro x hx y hy st
    by_cases hxy : x = y
    · rw [hxy]
    · exact mapArgument_comm (hdifferent.forall hx hy hxy) st
  obtain ⟨hmap, hwf⟩ := hsim hplain
  obtain ⟨hmap', hwf'⟩ := hsim hplain'
  rw [← hperm.foldl_eq' hcomm, ← hmap] at hmap'
  rcases cases_of_parsedMap_eq hmap'.symm with herror | ⟨c, s₁, s₂, h₁, h₂, hm⟩
  · exact .inl herror
  · refine .inr ⟨c, s₁, s₂, h₁, h₂, fun n => ?_⟩
    rw [(hwf _ h₁).findOption_eq, (hwf' _ h₂).findOption_eq, hm]

/-! ## Every sequence of operations -/

/-- **The options are a finite map** modulo dashes, after every sequence of operations: a lookup
finds what was set last under its name, setting a name leaves the others alone, and so the order of
differently named options on a command line changes no answer. -/
theorem optionStore_finiteMap (fopen : CStr → Option (List UInt8)) (ops : List Operation) :
    FiniteMap (runOperations fopen ops) (ops.flatMap (Operation.settings fopen)) ∧
    (∀ name value type n, type ≠ .file → key name ≠ key n →
      findOption (setOption fopen (runOperations fopen ops) name value type).1 n
        = findOption (runOperations fopen ops) n) ∧
    ∀ argv argv', Plain (runOperations fopen ops) argv → argv.Perm argv' →
      argv.Pairwise Different →
      (∃ e e', parseArguments fopen (runOperations fopen ops) argv = .error e ∧
        parseArguments fopen (runOperations fopen ops) argv' = .error e') ∨
      ∃ c s₁ s₂, parseArguments fopen (runOperations fopen ops) argv = .ok (c, s₁) ∧
        parseArguments fopen (runOperations fopen ops) argv' = .ok (c, s₂) ∧
        ∀ {α : Type} (optTo : Opt → α) (default : α) (n : CStr),
          sbGetValue optTo default s₁ n = sbGetValue optTo default s₂ n := by
  have hwf : WellFormed (runOperations fopen ops) := by
    rw [runOperations_eq]
    exact wellFormed_foldl wellFormed_nil _
  refine ⟨?_, fun name value type n htype hk => ?_, fun argv argv' hplain hperm hdiff => ?_⟩
  · rw [runOperations_eq]
    exact finiteMap_foldl _
  · rw [setOption_store htype]
    exact findOption_addOption_of_ne hk _ _
  · rcases parseArguments_perm hwf hplain hperm hdiff with h | ⟨c, s₁, s₂, h₁, h₂, hfind⟩
    · exact .inl h
    · refine .inr ⟨c, s₁, s₂, h₁, h₂, fun optTo default n => ?_⟩
      rw [sbGetValue, sbGetValue, hfind]

/-- Two of the general options, registered with their defaults. -/
def twoArgs : List Operation :=
  [.registerArgSet [⟨.lit "num-threads", .int, some (.lit "1")⟩,
    ⟨.lit "max-requests", .int, some (.lit "10000")⟩]]

/-- Both are given on the command line, in either order and spelling. -/
theorem optionStore_finiteMap_twoArgs :
    ∃ c s₁ s₂, parseArguments (fun _ => none) (runOperations (fun _ => none) twoArgs)
        [.lit "--num_threads=4", .lit "--max-requests=7", .lit "run"] = .ok (c, s₁) ∧
      parseArguments (fun _ => none) (runOperations (fun _ => none) twoArgs)
        [.lit "--max-requests=7", .lit "--num_threads=4", .lit "run"] = .ok (c, s₂) ∧
      sbGetValueInt s₁ (.lit "num-threads") = sbGetValueInt s₂ (.lit "num-threads") ∧
      sbGetValueInt s₂ (.lit "num-threads") = .ok 4 := by
  have hplain : Plain (runOperations (fun _ => none) twoArgs)
      [.lit "--num_threads=4", .lit "--max-requests=7", .lit "run"] := ⟨by decide, by decide⟩
  have hdiff : [CStr.lit "--num_threads=4", .lit "--max-requests=7", .lit "run"].Pairwise
      Different := by
    unfold Different
    decide
  rcases (optionStore_finiteMap (fun _ => none) twoArgs).2.2 _ _ hplain (List.Perm.swap _ _ _)
    hdiff with ⟨e, e', h, -⟩ | ⟨c, s₁, s₂, h₁, h₂, hget⟩
  · cases h
  · refine ⟨c, s₁, s₂, h₁, h₂, hget _ _ _, ?_⟩
    obtain ⟨-, rfl⟩ := Prod.mk.inj (Except.ok.inj h₂)
    decide

end Sysbench.Options
