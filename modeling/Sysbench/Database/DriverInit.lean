import Sysbench.Machinery.CircularList
import Sysbench.Options.Store

/-!
# Database/DriverInit — which driver `db_init` initialises

The drivers that were compiled in stand in one circular list.  `db_init` takes the name it is given,
or else the value of `--db-driver`, and searches the list for it; without a name it takes the only
driver there is.  The search keeps the driver it looked at last in the variable it reports with, so
a name that nobody has ends on **the last driver of the list** and not on a null pointer.
-/

namespace Sysbench.Database

open Options

variable {ν : Type*} [DecidableEq ν]

/-- `db_ps_mode_t`. -/
inductive PsMode
  | auto
  | disable
  deriving DecidableEq, Repr

/-- `db_globals_t`. -/
structure DbGlobals where
  psMode : PsMode
  driver : Option CStr
  debug : Bool
  deriving DecidableEq

/-- `db_args`. -/
def dbArgs : List Arg :=
  [⟨.lit "db-driver", .string, none⟩, ⟨.lit "db-ps-mode", .string, some (.lit "auto")⟩,
    ⟨.lit "db-debug", .flag, some (.lit "off")⟩]

/-- `db_parse_arguments`: no result where it reads through a null pointer, and no globals where it
refuses the mode. -/
def dbParseArguments (opts : Store) : Option (Option DbGlobals) :=
  match sbGetValueString opts (.lit "db-ps-mode") with
  | none => none
  | some s =>
    let globals mode : DbGlobals :=
      ⟨mode, sbGetValueString opts (.lit "db-driver"), sbGetValueFlag opts (.lit "db-debug")⟩
    if s = .lit "auto" then some (some (globals .auto))
    else if s = .lit "disable" then some (some (globals .disable))
    else some none

/-- The list of drivers and their names; a driver is known by the item that links it. -/
structure Registry (ν : Type*) where
  links : Links ν
  drivers : ν
  sname : ν → CStr

/-- What `db_init` calls once it has a driver: whether `ops.init` of that driver, the allocation of
the statistics and `sb_percentile_init` succeed. -/
structure InitCalls (ν : Type*) where
  init : ν → Bool
  threadStats : Bool
  percentile : Bool

/-- What `db_init` and its callees log by themselves. -/
inductive InitMessage
  /-- `No DB drivers available` -/
  | noDrivers
  /-- `Invalid value for db-ps-mode: %s` -/
  | invalidPsMode
  /-- `No DB drivers specified, using %s` -/
  | using (sname : CStr)
  /-- `no database driver specified` -/
  | noneSpecified
  /-- `invalid database driver name: '%s'` -/
  | invalidName (name : CStr)
  deriving DecidableEq

/-- How `db_init` ended: the driver it called `ops.init` of, what it returned, and its message. -/
structure InitResult (ν : Type*) where
  called : Option ν
  returned : Option ν
  message : Option InitMessage
  deriving DecidableEq

/-- The part of `db_init` behind the search, for a driver. -/
def initDriver (calls : InitCalls ν) (drv : ν) (message : Option InitMessage) : InitResult ν :=
  { called := some drv
    returned := if calls.init drv && calls.threadStats && calls.percentile then some drv else none
    message }

/-- `db_init`. -/
def dbInit (fuel : ℕ) (r : Registry ν) (calls : InitCalls ν) (opts : Store) (name : Option CStr) :
    Option (InitResult ν) :=
  if r.links.isEmpty r.drivers then some ⟨none, none, some .noDrivers⟩
  else
    match dbParseArguments opts with
    | none => none
    | some none => some ⟨none, none, some .invalidPsMode⟩
    | some (some globals) =>
      -- `name = db_globals.driver`, if there is no other
      match name.or globals.driver with
      | none =>
        let drv := r.links.next r.drivers
        if r.links.next drv = r.links.prev drv then
          some (initDriver calls drv (some (.using (r.sname drv))))
        else some ⟨none, none, some .noneSpecified⟩
      | some name =>
        (r.links.forEach r.drivers (fun _ pos => (some pos, decide (r.sname pos = name))) fuel none
          (r.links.next r.drivers)).map fun drv =>
            match drv with
            | none => ⟨none, none, some (.invalidName name)⟩
            | some drv => initDriver calls drv none

/-! ## What the two searches find -/

section Resolution

variable {r : Registry ν} {items : List ν}

omit [DecidableEq ν] in
/-- **Neighbours are the same item exactly around the only driver.** -/
theorem next_eq_prev_iff {d : ν} (h : r.links.IsRing r.drivers (d :: items)) :
    r.links.next d = r.links.prev d ↔ items = [] := by
  obtain ⟨⟨⟨-, hprev⟩, hpath⟩, hnd⟩ := h
  cases items with
  | nil => simp [hprev, hpath.1]
  | cons e items =>
    have he : e ≠ r.drivers := by rintro rfl; simp at hnd
    simp [hprev, hpath.1.1, he]

/-- The driver `db_init` calls for a name: the first that has it, or else the last of all. -/
def searched (r : Registry ν) (items : List ν) (name : CStr) : Option ν :=
  (items.find? (r.sname · = name)).or items.getLast?

/-- What `db_init` does with the name it has settled on. -/
def resolved (r : Registry ν) (items : List ν) (calls : InitCalls ν) :
    Option CStr → InitResult ν
  | none =>
    match items with
    | [d] => initDriver calls d (some (.using (r.sname d)))
    | _ => ⟨none, none, some .noneSpecified⟩
  | some name => (searched r items name).elim ⟨none, none, some (.invalidName name)⟩
    fun drv => initDriver calls drv none

/-- **`db_init` over the list as a list.** -/
theorem dbInit_eq (hring : r.links.IsRing r.drivers items) (hne : items ≠ []) {opts : Store}
    {globals : DbGlobals} (hargs : dbParseArguments opts = some (some globals)) {fuel : ℕ}
    (hfuel : items.length < fuel) (calls : InitCalls ν) (name : Option CStr) :
    dbInit fuel r calls opts name = some (resolved r items calls (name.or globals.driver)) := by
  have hempty : r.links.isEmpty r.drivers = false := by
    rw [hring.isEmpty_eq]
    simpa using hne
  rw [dbInit, hempty, if_neg Bool.false_ne_true, hargs]
  cases hname : name.or globals.driver with
  | none =>
    obtain ⟨d, rest, rfl⟩ := List.exists_cons_of_ne_nil hne
    simp only [hname, hring.next_head, next_eq_prev_iff hring]
    cases rest with
    | nil =>
      rw [if_pos rfl]
      rfl
    | cons e rest =>
      rw [if_neg (List.cons_ne_nil e rest)]
      rfl
  | some n =>
    simp only [hname, hring.forEach_eq hfuel, Links.foldBreak_search, Option.or_none,
      Option.map_some]
    rw [resolved, searched]
    cases (items.find? (r.sname · = n)).or items.getLast? <;> rfl

/-- Driver resolution is exact for the name `given`, if there is one. -/
structure ResolvesExactly (r : Registry ν) (items : List ν) (given : Option CStr)
    (out : InitResult ν) : Prop where
  named : ∀ n, given = some n → ∀ d ∈ items, r.sname d = n → out.called = some d
  unknown : ∀ n, given = some n → (∀ d ∈ items, r.sname d ≠ n) →
    out.called = none ∧ out.returned = none
  sole : given = none → ∀ d, items = [d] → out.called = some d
  several : given = none → 1 < items.length → out.called = none ∧ out.returned = none

omit [DecidableEq ν] in
theorem searched_of_mem (hnames : (items.map r.sname).Nodup) {d : ν} (hd : d ∈ items) :
    searched r items (r.sname d) = some d := by
  have hfind : items.find? (r.sname · = r.sname d) = some d := by
    rw [List.find?_eq_some_iff_append]
    obtain ⟨pre, post, rfl⟩ := List.append_of_mem hd
    refine ⟨by simp, pre, post, rfl, fun e he => ?_⟩
    have hne : r.sname e ≠ r.sname d := fun heq => by
      rw [List.map_append, List.nodup_append] at hnames
      exact hnames.2.2 _ (List.mem_map_of_mem he) _
        (List.mem_map_of_mem List.mem_cons_self) heq
    simpa using hne
  rw [searched, hfind, Option.some_or]

omit [DecidableEq ν] in
theorem exists_searched (hne : items ≠ []) (name : CStr) : ∃ d, searched r items name = some d := by
  rw [searched, List.getLast?_eq_some_getLast hne]
  cases items.find? (r.sname · = name) with
  | none => exact ⟨_, rfl⟩
  | some d => exact ⟨d, rfl⟩

theorem driver_of_dbParseArguments {opts : Store} {globals : DbGlobals}
    (h : dbParseArguments opts = some (some globals)) :
    globals.driver = sbGetValueString opts (.lit "db-driver") := by
  unfold dbParseArguments at h
  split at h
  · cases h
  · dsimp only at h
    split_ifs at h
    · rw [← Option.some.inj (Option.some.inj h)]
    · rw [← Option.some.inj (Option.some.inj h)]
    · cases h

omit [DecidableEq ν] in
/-- Exactness for a name, whatever follows the search. -/
theorem resolvesExactly_resolved_iff (hne : items ≠ []) (hnames : (items.map r.sname).Nodup)
    (calls : InitCalls ν) (given : Option CStr) :
    ResolvesExactly r items given (resolved r items calls given) ↔
      ∀ n, given = some n → ∃ d ∈ items, r.sname d = n := by
  constructor
  · -- an unknown name would have to be refused, and it is not
    rintro ⟨-, hunknown, -, -⟩ n rfl
    by_contra! hnone
    obtain ⟨d, hd⟩ := exists_searched (r := r) hne n
    have hcalled := (hunknown n rfl hnone).1
    rw [resolved, hd] at hcalled
    exact Option.some_ne_none d hcalled
  · intro hknown
    refine ⟨?_, ?_, ?_, ?_⟩
    · rintro n rfl d hd rfl
      rw [resolved, searched_of_mem hnames hd]
      rfl
    · rintro n rfl hnone
      obtain ⟨d, hd, hdn⟩ := hknown n rfl
      exact absurd hdn (hnone d hd)
    · rintro rfl d rfl
      rfl
    · rintro rfl hlen
      rcases items with _ | ⟨d, _ | ⟨e, rest⟩⟩
      · exact absurd hlen (by simp)
      · exact absurd hlen (by simp)
      · exact ⟨rfl, rfl⟩

/-- **Driver resolution is exact precisely when a name that is given is the name of a driver**: what
is given but not registered makes `db_init` initialise the last driver of the list. -/
theorem dbInit_resolvesExactly_iff (hring : r.links.IsRing r.drivers items) (hne : items ≠ [])
    (hnames : (items.map r.sname).Nodup) {opts : Store} {globals : DbGlobals}
    (hargs : dbParseArguments opts = some (some globals)) {fuel : ℕ} (hfuel : items.length < fuel)
    (calls : InitCalls ν) (name : Option CStr) :
    ∃ out, dbInit fuel r calls opts name = some out ∧
      (ResolvesExactly r items (name.or (sbGetValueString opts (.lit "db-driver"))) out ↔
        ∀ n, name.or (sbGetValueString opts (.lit "db-driver")) = some n →
          ∃ d ∈ items, r.sname d = n) := by
  rw [← driver_of_dbParseArguments hargs]
  exact ⟨_, dbInit_eq hring hne hargs hfuel calls name,
    resolvesExactly_resolved_iff hne hnames calls _⟩

end Resolution

/-! ## Two drivers -/

/-- `db_register` with two drivers compiled in. -/
def twoDrivers : Registry (Fin 3) where
  links := Links.listOf ⟨id, id⟩ 0 [1, 2]
  drivers := 0
  sname := fun d => if d = 1 then .lit "mysql" else .lit "pgsql"

/-- The options as `db_register` leaves them. -/
def defaultDbOptions : Store := (sbRegisterArgSet (fun _ => none) [] dbArgs).1

/-- Everything succeeds. -/
def allSucceed : InitCalls (Fin 3) := ⟨fun _ => true, true, true⟩

theorem dbParseArguments_defaultDbOptions :
    dbParseArguments defaultDbOptions = some (some ⟨.auto, none, false⟩) := by
  decide +kernel

theorem isRing_twoDrivers : twoDrivers.links.IsRing twoDrivers.drivers [1, 2] :=
  Links.isRing_listOf (by decide) _

/-- The second of two drivers, by its name. -/
theorem dbInit_resolvesExactly_pgsql :
    ∃ out, dbInit 3 twoDrivers allSucceed defaultDbOptions (some (.lit "pgsql")) = some out ∧
      (ResolvesExactly twoDrivers [1, 2]
          ((some (.lit "pgsql")).or (sbGetValueString defaultDbOptions (.lit "db-driver"))) out ↔
        ∀ n, (some (.lit "pgsql")).or (sbGetValueString defaultDbOptions (.lit "db-driver"))
          = some n → ∃ d ∈ [1, 2], twoDrivers.sname d = n) :=
  dbInit_resolvesExactly_iff isRing_twoDrivers (by decide) (by decide +kernel)
    dbParseArguments_defaultDbOptions (by decide) allSucceed _

/-- **A name nobody has** is not refused: the last driver is initialised and returned. -/
theorem dbInit_unknown_name :
    ∃ out, dbInit 3 twoDrivers allSucceed defaultDbOptions (some (.lit "oracle")) = some out ∧
      out.called = some 2 ∧ out.returned = some 2 ∧
      ¬ ResolvesExactly twoDrivers [1, 2] (some (.lit "oracle")) out := by
  refine ⟨initDriver allSucceed 2 none, by decide +kernel, by decide, by decide, fun h => ?_⟩
  have hnone : ∀ d ∈ [1, 2], twoDrivers.sname d ≠ .lit "oracle" := by decide +kernel
  exact absurd (h.unknown _ rfl hnone).1 (by decide)

end Sysbench.Database
