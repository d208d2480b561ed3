import Sysbench.Machinery.CString
import Sysbench.Machinery.MachineInt

/-!
# Options/Store — the list of options, and what fills and reads it

All options are in one list, each with a type and a list of values.  Three entry points fill it:
the argument sets of the program and its tests, `set_option` for what stands on the command line,
and `read_config` for what stands in a configuration file.  A lookup compares names character by
character and takes `-` and `_` for the same; a name that is not found is stored with its dashes
converted.
-/

namespace Sysbench.Options

/-- `sb_arg_type_t`. -/
inductive ArgType
  | null
  | flag
  | int
  | size
  | float
  | string
  | list
  | file
  deriving DecidableEq, Repr

/-- What an `option_t` holds under its name.  (`ignore` of a single value is never set.) -/
structure Entry where
  type : ArgType
  values : List CStr
  ignore : Bool
  deriving DecidableEq

/-- After `new_option`. -/
def Entry.new : Entry := ⟨.null, [], false⟩

/-- `option_t`. -/
structure Opt extends Entry where
  name : CStr
  deriving DecidableEq

/-- The global list of options. -/
abbrev Store : Type := List Opt

/-! ## Names -/

/-- A dash or an underscore. -/
def isDash (c : UInt8) : Bool := c = '-'.toUInt8 || c = '_'.toUInt8

/-- A character of a name, as `convert_dashes` leaves it. -/
def convertDash (c : UInt8) : UInt8 := if c = '-'.toUInt8 then '_'.toUInt8 else c

theorem convertDash_ne_zero {c : UInt8} (h : c ≠ 0) : convertDash c ≠ 0 := by
  unfold convertDash
  split_ifs
  · decide
  · exact h

theorem zero_notMem_map_convertDash {bs : List UInt8} (h : 0 ∉ bs) : 0 ∉ bs.map convertDash := by
  intro hmem
  obtain ⟨c, hc, hc0⟩ := List.mem_map.mp hmem
  exact convertDash_ne_zero (fun h0 => h (h0 ▸ hc)) hc0

/-- `convert_dashes`. -/
def convertDashes (s : CStr) : CStr :=
  ⟨s.bytes.map convertDash, zero_notMem_map_convertDash s.noNul⟩

/-- A `char` in arithmetic, where it is signed. -/
def charValue (c : UInt8) : ℤ := c.toInt8.toInt

/-- `opt_name_cmp`; at the end of a string `*s` is the terminator. -/
def optNameCmp : List UInt8 → List UInt8 → ℤ
  | [], [] => 0
  | [], b :: _ => 0 - charValue b
  | a :: _, [] => charValue a - 0
  | a :: s, b :: t =>
    if a = b then optNameCmp s t
    else if !isDash a || !isDash b then charValue a - charValue b
    else optNameCmp s t

/-- The option has this name, for a lookup. -/
def Opt.named (name : CStr) (o : Opt) : Bool := optNameCmp o.name.bytes name.bytes = 0

/-- `find_option`. -/
def findOption (s : Store) (name : CStr) : Option Opt := s.find? (Opt.named name)

/-- `add_option`, which returns a pointer to the option it has found or added; `f` is what the
caller does to it. -/
def addOption (name : CStr) (f : Entry → Entry) : Store → Store
  | [] => [⟨f .new, convertDashes name⟩]
  | o :: s => if o.named name then ⟨f o.toEntry, o.name⟩ :: s else o :: addOption name f s

/-! ## Configuration files -/

/-- `isspace`. -/
def isSpace (c : UInt8) : Bool := c = ' '.toUInt8 || 9 ≤ c && c ≤ 13

/-- `fgets` with room for `n` bytes and the terminator: what it reads, and the rest of the file. -/
def fgets : ℕ → List UInt8 → List UInt8 × List UInt8
  | 0, file => ([], file)
  | _, [] => ([], [])
  | n + 1, c :: file =>
    if c = '\n'.toUInt8 then ([c], file) else (c :: (fgets n file).1, (fgets n file).2)

/-- `MAXSTRLEN`. -/
def maxStrLen : ℕ := 256

/-- The buffers `read_config` goes through, as long as `fgets` reads something.  The length of the
file is enough fuel. -/
def configBuffers : (fuel : ℕ) → List UInt8 → List (List UInt8)
  | 0, _ => []
  | _, [] => []
  | fuel + 1, file =>
    (fgets (maxStrLen - 1) file).1 :: configBuffers fuel (fgets (maxStrLen - 1) file).2

/-- The end of a value without quotes. -/
def endsValue (c : UInt8) : Bool := c = ','.toUInt8 || isSpace c

/-- The scanner of `read_config` on what stands behind the delimiter: the values it adds, and
whether it came to the end of the text.  A quote that is not closed ends it with
`unexpected EOL`.  The length of the text is enough fuel. -/
def scanValues : (fuel : ℕ) → List UInt8 → List CStr × Bool
  | 0, _ => ([], true)
  | _, [] => ([], true)
  | fuel + 1, c :: tmp =>
    if isSpace c then scanValues fuel tmp
    else if c = '#'.toUInt8 then ([], true)
    else if c = '\''.toUInt8 || c = '"'.toUInt8 then
      match tmp.dropWhile (· ≠ c) with
      | [] => ([], false)
      | _ :: behind =>
        let scan := scanValues fuel ((behind.dropWhile (· ≠ ','.toUInt8)).drop 1)
        (.ofBytes (tmp.takeWhile (· ≠ c)) :: scan.1, scan.2)
    else
      let scan := scanValues fuel (((c :: tmp).dropWhile (!endsValue ·)).drop 1)
      (.ofBytes ((c :: tmp).takeWhile (!endsValue ·)) :: scan.1, scan.2)

/-- A line of a file that has a delimiter: the name, the values, and whether the line was read to
its end. -/
structure ConfigLine where
  name : CStr
  values : List CStr
  complete : Bool
  deriving DecidableEq

/-- One buffer of `read_config`. -/
def configLine (buf : List UInt8) : Option ConfigLine :=
  match (CStr.ofBytes buf).bytes.dropWhile (· ≠ '='.toUInt8) with
  | [] => none
  | _ :: tmp =>
    let scan := scanValues tmp.length tmp
    some ⟨.ofBytes ((CStr.ofBytes buf).bytes.takeWhile (· ≠ '='.toUInt8)), scan.1, scan.2⟩

/-- The loop of `read_config`: the options, and whether the file was read to its end. -/
def readBuffers : Store → List (List UInt8) → Store × Bool
  | s, [] => (s, true)
  | s, buf :: bufs =>
    match configLine buf with
    | none => readBuffers s bufs
    | some line =>
      let s := addOption line.name ({ · with values := line.values }) s
      if line.complete then readBuffers s bufs else (s, false)

/-- `read_config`. -/
def readConfig (s : Store) (file : List UInt8) : Store × Bool :=
  readBuffers s (configBuffers file.length file)

/-! ## `set_option` -/

section SetOption

variable (fopen : CStr → Option (List UInt8))

/-- `read_config_file`; what cannot be opened is reported, and that is all. -/
def readConfigFile (s : Store) (filename : CStr) : Store :=
  match fopen filename with
  | none => s
  | some file => (readConfig s file).1

/-- The tokens of `strtok` over commas. -/
def strtokCommas (s : CStr) : List CStr :=
  ((s.bytes.splitOn ','.toUInt8).filter (· ≠ [])).map .ofBytes

/-- The value is `NULL` or empty. -/
def isBlank (value : Option CStr) : Bool := value.all (·.bytes = [])

/-- The values `set_option` adds by itself. -/
def valuesOf (value : Option CStr) : ArgType → List CStr
  | .flag => if value.all (· = .lit "on") then [.lit "on"] else []
  | .int | .size | .float | .string => if isBlank value then [] else value.toList
  | .list => if isBlank value then [] else value.toList.flatMap strtokCommas
  | .file | .null => []

/-- `set_option`: the options, and whether it returned success.  A `value` behind a name of type
`SB_ARG_TYPE_FILE` is a file to read. -/
def setOption (s : Store) (name : CStr) (value : Option CStr) (type : ArgType) : Store × Bool :=
  let s := addOption name ({ · with type, values := valuesOf value type }) s
  if type ≠ .flag ∧ isBlank value then (s, true)
  else match type with
    | .file => (value.elim s (readConfigFile fopen s), true)
    | .null => (s, false)
    | _ => (s, true)

/-- `sb_arg_t`. -/
structure Arg where
  name : CStr
  type : ArgType
  value : Option CStr

/-- `sb_register_arg_set`. -/
def sbRegisterArgSet : Store → List Arg → Store × Bool
  | s, [] => (s, true)
  | s, arg :: set =>
    let r := setOption fopen s arg.name arg.value arg.type
    if r.2 then sbRegisterArgSet r.1 set else r

/-! ## The command line -/

/-- `sb_cmd_t`. -/
inductive Command
  | null
  | prepare
  | run
  | help
  | cleanup
  | version
  deriving DecidableEq, Repr

/-- `parse_command`. -/
def parseCommand (cmd : CStr) : Command :=
  if cmd = .lit "prepare" then .prepare
  else if cmd = .lit "run" then .run
  else if cmd = .lit "help" then .help
  else if cmd = .lit "cleanup" then .cleanup
  else if cmd = .lit "version" then .version
  else .null

/-- Why the loop over the arguments ends early: more than one command; no command; an option after
the command `help` or `version`, where `parse_arguments` returns 1 and 0; an option that
`set_option` refuses. -/
inductive Stop
  | multipleCommands
  | unknownCommand (arg : CStr)
  | help
  | version
  | refused
  deriving DecidableEq

/-- What stands behind `--`: the name, and the value if there is a `=`. -/
def splitOption (arg : CStr) : CStr × Option CStr :=
  let text := arg.bytes.drop 2
  (.ofBytes (text.takeWhile (· ≠ '='.toUInt8)),
    match text.dropWhile (· ≠ '='.toUInt8) with
    | [] => none
    | _ :: value => some (.ofBytes value))

/-- The argument is an option. -/
def isOption (arg : CStr) : Bool := arg.bytes.take 2 = [45, 45]

/-- The type `parse_arguments` gives an option. -/
def typeFor (s : Store) (name : CStr) : ArgType := (findOption s name).elim .string (·.type)

/-- One argument in `parse_arguments`. -/
def parseArgument (st : Command × Store) (arg : CStr) : Except Stop (Command × Store) :=
  if isOption arg then
    if st.1 = .help then .error .help
    else if st.1 = .version then .error .version
    else
      let r := setOption fopen st.2 (splitOption arg).1 (splitOption arg).2
        (typeFor st.2 (splitOption arg).1)
      if r.2 then .ok (st.1, r.1) else .error .refused
  else if st.1 ≠ .null then .error .multipleCommands
  else if parseCommand arg = .null then .error (.unknownCommand arg)
  else .ok (parseCommand arg, st.2)

/-- The loop of `parse_arguments` over the command line. -/
def parseArguments (s : Store) (argv : List CStr) : Except Stop (Command × Store) :=
  argv.foldlM (parseArgument fopen) (.null, s)

end SetOption

/-! ## The getters -/

/-- The six functions `sb_get_value_*`: what the option says, or a default where there is none. -/
def sbGetValue {α : Type} (optTo : Opt → α) (default : α) (s : Store) (name : CStr) : α :=
  (findOption s name).elim default optTo

/-- `sb_opt_to_flag`. -/
def sbOptToFlag (o : Opt) : Bool := !o.values.isEmpty

/-- A decimal digit. -/
def isDigit (c : UInt8) : Bool := '0'.toUInt8 ≤ c && c ≤ '9'.toUInt8

/-- The number a run of digits denotes. -/
def decimal (ds : List UInt8) : ℕ := ds.foldl (fun n d => 10 * n + (d.toNat - 48)) 0

/-- `strtol` in base 10, into a `long` of 64 bits: the value, and the text at `endptr`. -/
def strtol (s : List UInt8) : ℤ × List UInt8 :=
  let t := s.dropWhile isSpace
  let neg := t.head? = some '-'.toUInt8
  let ds := if neg ∨ t.head? = some '+'.toUInt8 then t.drop 1 else t
  let n : ℤ := decimal (ds.takeWhile isDigit)
  if ds.takeWhile isDigit = [] then (0, s)
  else (max (-2 ^ 63) (min (2 ^ 63 - 1) (if neg then -n else n)), ds.dropWhile isDigit)

/-- `sb_opt_to_int`; a value that is no `int` ends the program, with a message that names the option
and the value. -/
def sbOptToInt (o : Opt) : Except (CStr × CStr) ℤ :=
  match o.values with
  | [] => .ok 0
  | val :: _ =>
    let r := strtol val.bytes
    if r.2 ≠ [] ∨ 2 ^ 31 - 1 < r.1 ∨ r.1 < -2 ^ 31 then .error (o.name, val) else .ok r.1

/-- The digits a size begins with, in `unsigned long long`, and the modifier behind them. -/
def sizeDigits : (seen : Bool) → ℕ → List UInt8 → ℕ × Option UInt8
  | _, res, [] => (res, none)
  | seen, res, c :: cs =>
    if isDigit c then sizeDigits true (toU64 (res * 10 + (c.toNat - 48 : ℤ))) cs
    else (res, if seen then some c else none)

/-- The power of 1024 a size modifier stands for, in either case. -/
def sizeMod (mult : UInt8) : Option ℕ :=
  ["Kk", "Mm", "Gg", "Tt"].findIdx? fun mods => mult ∈ mods.toList.map Char.toUInt8

/-- `sb_opt_to_size`. -/
def sbOptToSize (o : Opt) : ℕ :=
  match o.values with
  | [] => 0
  | val :: _ =>
    match sizeDigits false 0 val.bytes with
    | (res, none) => res
    | (res, some mult) => (sizeMod mult).elim 0 fun n => toU64 (res * 1024 ^ (n + 1) : ℕ)

/-- `sb_opt_to_float`, over what `sscanf` reads; `res` is not initialized. -/
def sbOptToFloat {F : Type} [Zero F] (sscanf : CStr → Option F) (res : F) (o : Opt) : F :=
  o.values.foldl (fun _ val => (sscanf val).getD 0) res

/-- `sb_opt_to_string`. -/
def sbOptToString (o : Opt) : Option CStr := o.values.head?

/-- `sb_opt_to_list`. -/
def sbOptToList (o : Opt) : Option (List CStr) := some o.values

/-- `sb_get_value_flag`. -/
def sbGetValueFlag : Store → CStr → Bool := sbGetValue sbOptToFlag false

/-- `sb_get_value_int`. -/
def sbGetValueInt : Store → CStr → Except (CStr × CStr) ℤ := sbGetValue sbOptToInt (.ok 0)

/-- `sb_get_value_size`. -/
def sbGetValueSize : Store → CStr → ℕ := sbGetValue sbOptToSize 0

/-- `sb_get_value_float`. -/
def sbGetValueFloat {F : Type} [Zero F] (sscanf : CStr → Option F) (res : F) :
    Store → CStr → F := sbGetValue (sbOptToFloat sscanf res) 0

/-- `sb_get_value_string`. -/
def sbGetValueString : Store → CStr → Option CStr := sbGetValue sbOptToString none

/-- `sb_get_value_list`. -/
def sbGetValueList : Store → CStr → Option (List CStr) := sbGetValue sbOptToList none

end Sysbench.Options
