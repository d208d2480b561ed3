import Sysbench.Machinery.CircularList
import Sysbench.Machinery.Traces
import Sysbench.Options.Store

/-!
# Database/HostRotation — the hosts of the MySQL driver, one connection after the other

`mysql_drv_connect` takes its host from the list of `--mysql-host`, or its socket from the list of
`--mysql-socket` if that has any values.  A global cursor begins on the head of each list and is
moved on by every connection, under a mutex; the head itself is stepped over.  So the connections go
**round robin** over the values, whatever thread makes them and whether the server answers or not.
-/

namespace Sysbench.Database

open Options

variable {ν : Type*} [DecidableEq ν]

/-- The items of the two option lists, with the text of each. -/
structure HostLists (ν : Type*) where
  links : Links ν
  hosts : ν
  sockets : ν
  data : ν → CStr

/-- What the connections read of `mysql_drv_args_t`. -/
structure MysqlArgs (ν : Type*) where
  hosts : ν
  sockets : ν
  port : ℕ
  user : Option CStr
  password : Option CStr
  db : Option CStr
  dryRun : Bool
  deriving DecidableEq

/-- `hosts_pos` and `sockets_pos`. -/
structure HostCursors (ν : Type*) where
  hostsPos : ν
  socketsPos : ν
  deriving DecidableEq

/-- `mysql_drv_init`: no driver without hosts, and none with a port that is no number. -/
def mysqlDrvInit (m : HostLists ν) (opts : Store) : Option (MysqlArgs ν × HostCursors ν) :=
  if m.links.isEmpty m.hosts then none
  else
    match sbGetValueInt opts (.lit "mysql-port") with
    | .error _ => none
    | .ok port =>
      some ({ hosts := m.hosts
              sockets := m.sockets
              port := toU32 port
              user := sbGetValueString opts (.lit "mysql-user")
              password := sbGetValueString opts (.lit "mysql-password")
              db := sbGetValueString opts (.lit "mysql-db")
              dryRun := sbGetValueFlag opts (.lit "mysql-dry-run") },
            { hostsPos := m.hosts, socketsPos := m.sockets })

/-- `db_mysql_conn_t`, as `mysql_real_connect` gets it. -/
structure MysqlConn where
  host : CStr
  socket : Option CStr
  user : Option CStr
  password : Option CStr
  db : Option CStr
  port : ℕ
  deriving DecidableEq

/-- A call of `mysql_drv_connect`: the thread that makes it, whether the two allocations succeed,
and whether the server takes the connection. -/
structure ConnectCall where
  thread : ℕ
  calloc : Bool
  malloc : Bool
  connected : Bool

/-- What the call returns, and the item and the connection it had chosen. -/
structure ConnectResult (ν : Type*) where
  code : ℕ
  chosen : Option (ν × MysqlConn)

/-- A connection with the user, the password, the database and the port of the options. -/
def MysqlArgs.connTo (args : MysqlArgs ν) (host : CStr) (socket : Option CStr) : MysqlConn :=
  { host, socket, user := args.user, password := args.password, db := args.db, port := args.port }

/-- `mysql_drv_connect`. -/
def mysqlDrvConnect (m : HostLists ν) (args : MysqlArgs ν) (s : HostCursors ν) (i : ConnectCall) :
    ConnectResult ν × HostCursors ν :=
  if args.dryRun then (⟨0, none⟩, s)
  else if !i.calloc then (⟨1, none⟩, s)
  else if !i.malloc then (⟨1, none⟩, s)
  else
    let code := if i.connected then 0 else 1
    if m.links.isEmpty args.sockets then
      let pos := m.links.rotate args.hosts s.hostsPos
      (⟨code, some (pos, args.connTo (m.data pos) none)⟩, { s with hostsPos := pos })
    else
      let pos := m.links.rotate args.sockets s.socketsPos
      (⟨code, some (pos, args.connTo (.lit "localhost") (some (m.data pos)))⟩,
        { s with socketsPos := pos })

/-- The memory holds the two lists of values that the options have. -/
structure HostLists.Represents (m : HostLists ν) (opts : Store) (hosts sockets : List ν) :
    Prop where
  hostsRing : m.links.IsRing m.hosts hosts
  socketsRing : m.links.IsRing m.sockets sockets
  hostValues : sbGetValueList opts (.lit "mysql-host") = some (hosts.map m.data)
  socketValues : sbGetValueList opts (.lit "mysql-socket") = some (sockets.map m.data)

/-! ## One connection -/

section Connections

variable {m : HostLists ν} {opts : Store} {hosts sockets : List ν} {args : MysqlArgs ν}
  {s₀ s : HostCursors ν}

/-- The list the connections go round. -/
def rotated (hosts sockets : List ν) : List ν := if sockets = [] then hosts else sockets

/-- The head of that list. -/
def HostLists.head (m : HostLists ν) (sockets : List ν) : ν :=
  if sockets = [] then m.hosts else m.sockets

/-- The cursor in that list. -/
def HostCursors.pos (s : HostCursors ν) (sockets : List ν) : ν :=
  if sockets = [] then s.hostsPos else s.socketsPos

/-- The option that list is the value of. -/
def rotatedName (sockets : List ν) : CStr :=
  if sockets = [] then .lit "mysql-host" else .lit "mysql-socket"

/-- The connection that uses a value: as its host, or as its socket. -/
def MysqlArgs.connBy (args : MysqlArgs ν) (sockets : List ν) (value : CStr) : MysqlConn :=
  if sockets = [] then args.connTo value none else args.connTo (.lit "localhost") (some value)

theorem mysqlDrvInit_eq_some (h : mysqlDrvInit m opts = some (args, s₀)) :
    m.links.isEmpty m.hosts = false ∧ args.hosts = m.hosts ∧ args.sockets = m.sockets ∧
      s₀ = ⟨m.hosts, m.sockets⟩ := by
  unfold mysqlDrvInit at h
  split_ifs at h with hempty
  split at h
  · cases h
  · obtain ⟨rfl, rfl⟩ := Prod.mk.inj (Option.some.inj h)
    exact ⟨by simpa using hempty, rfl, rfl, rfl⟩

omit [DecidableEq ν] in
theorem HostLists.Represents.rotatedRing (hm : m.Represents opts hosts sockets) :
    m.links.IsRing (m.head sockets) (rotated hosts sockets) := by
  unfold HostLists.head rotated
  split_ifs
  · exact hm.hostsRing
  · exact hm.socketsRing

omit [DecidableEq ν] in
theorem HostLists.Represents.rotatedValues (hm : m.Represents opts hosts sockets) :
    sbGetValueList opts (rotatedName sockets) = some ((rotated hosts sockets).map m.data) := by
  unfold rotatedName rotated
  split_ifs
  · exact hm.hostValues
  · exact hm.socketValues

/-- **A call chooses nothing and leaves the cursor, or it moves the cursor on and connects by what
it has found there.** -/
theorem mysqlDrvConnect_cases (hm : m.Represents opts hosts sockets)
    (hhosts : args.hosts = m.hosts) (hsockets : args.sockets = m.sockets) (i : ConnectCall) :
    ((mysqlDrvConnect m args s i).1.chosen = none ∧
        (mysqlDrvConnect m args s i).2.pos sockets = s.pos sockets) ∨
      ∃ pos, pos = m.links.rotate (m.head sockets) (s.pos sockets) ∧
        (mysqlDrvConnect m args s i).1.chosen = some (pos, args.connBy sockets (m.data pos)) ∧
        (mysqlDrvConnect m args s i).2.pos sockets = pos := by
  have hempty : m.links.isEmpty args.sockets = sockets.isEmpty := by
    rw [hsockets, hm.socketsRing.isEmpty_eq]
  rw [mysqlDrvConnect, hhosts, hempty, hsockets]
  cases args.dryRun with
  | true => exact .inl ⟨rfl, rfl⟩
  | false =>
    cases i.calloc with
    | false => exact .inl ⟨rfl, rfl⟩
    | true =>
      cases i.malloc with
      | false => exact .inl ⟨rfl, rfl⟩
      | true =>
        refine .inr ⟨_, rfl, ?_⟩
        cases sockets with
        | nil => exact ⟨rfl, rfl⟩
        | cons x sockets => exact ⟨rfl, rfl⟩

/-! ## All connections -/

/-- Connections made one after the other use the items in turn. -/
structure RoundRobin (head : ν) (items : List ν) (values : List CStr) (conn : CStr → MysqlConn)
    (chosen : List (ν × MysqlConn)) : Prop where
  order : ∀ k, k < chosen.length → (chosen[k]?).map Prod.fst = items[k % items.length]?
  value : ∀ k, k < chosen.length →
    (chosen[k]?).map Prod.snd = (values[k % values.length]?).map conn
  head : head ∉ chosen.map Prod.fst
  fair : ∀ x ∈ items, ∀ y ∈ items,
    (chosen.map Prod.fst).count x ≤ (chosen.map Prod.fst).count y + 1

/-- The calls of `mysql_drv_connect`, by any threads. -/
abbrev Connects (m : HostLists ν) (args : MysqlArgs ν) :
    HostCursors ν → List (ConnectResult ν) → HostCursors ν → Prop :=
  Trace fun s i => some (mysqlDrvConnect m args s i)

/-- What the connections made so far say of the cursor. -/
structure RotationInv (m : HostLists ν) (args : MysqlArgs ν) (hosts sockets : List ν)
    (outs : List (ConnectResult ν)) (s : HostCursors ν) : Prop where
  order : ∀ k, k < (outs.filterMap (·.chosen)).length →
    (outs.filterMap (·.chosen))[k]?
      = ((rotated hosts sockets)[k % (rotated hosts sockets).length]?).map fun item =>
          (item, args.connBy sockets (m.data item))
  turn : Links.Turn (m.head sockets) (rotated hosts sockets)
    (outs.filterMap (·.chosen)).length (s.pos sockets)

theorem RotationInv.step (hm : m.Represents opts hosts sockets)
    (hne : rotated hosts sockets ≠ []) (hhosts : args.hosts = m.hosts)
    (hsockets : args.sockets = m.sockets) {outs : List (ConnectResult ν)}
    (h : RotationInv m args hosts sockets outs s) (i : ConnectCall) :
    RotationInv m args hosts sockets (outs ++ [(mysqlDrvConnect m args s i).1])
      (mysqlDrvConnect m args s i).2 := by
  obtain ⟨hchosen, hpos⟩ | ⟨pos, hrot, hchosen, hpos⟩ :=
    mysqlDrvConnect_cases (s := s) hm hhosts hsockets i
  · refine ⟨?_, ?_⟩
    · simpa [List.filterMap_append, hchosen] using h.order
    · simpa [List.filterMap_append, hchosen, hpos] using h.turn
  · have hturn := hm.rotatedRing.turn_rotate hne h.turn
    rw [← hrot] at hturn
    have hall : (outs ++ [(mysqlDrvConnect m args s i).1]).filterMap (·.chosen)
        = outs.filterMap (·.chosen) ++ [(pos, args.connBy sockets (m.data pos))] := by
      simp [List.filterMap_append, hchosen]
    refine ⟨fun k hk => ?_, ?_⟩
    · rw [hall] at hk ⊢
      rcases Nat.lt_or_ge k (outs.filterMap (·.chosen)).length with hlt | hge
      · rw [List.getElem?_append_left hlt, h.order k hlt]
      · obtain rfl : k = (outs.filterMap (·.chosen)).length := by
          simp only [List.length_append, List.length_singleton] at hk
          omega
        rw [List.getElem?_concat_length, hturn, Option.map_some]
    · rw [hall, List.length_append, List.length_singleton, hpos]
      exact hturn

theorem RotationInv.roundRobin (hm : m.Represents opts hosts sockets)
    {outs : List (ConnectResult ν)} (h : RotationInv m args hosts sockets outs s) :
    RoundRobin (m.head sockets) (rotated hosts sockets) ((rotated hosts sockets).map m.data)
      (args.connBy sockets) (outs.filterMap (·.chosen)) := by
  have hnd := List.nodup_cons.mp hm.rotatedRing.nodup
  have horder : ∀ k, k < (outs.filterMap (·.chosen)).length →
      ((outs.filterMap (·.chosen))[k]?).map Prod.fst
        = (rotated hosts sockets)[k % (rotated hosts sockets).length]? := fun k hk => by
    rw [h.order k hk, Option.map_map]
    exact congrFun Option.map_id _
  have hitems : ∀ k, k < ((outs.filterMap (·.chosen)).map Prod.fst).length →
      ((outs.filterMap (·.chosen)).map Prod.fst)[k]?
        = (rotated hosts sockets)[k % (rotated hosts sockets).length]? := fun k hk => by
    rw [List.getElem?_map, horder k (by simpa using hk)]
  refine ⟨horder, fun k hk => ?_, fun hmem => ?_,
    fun x hx y hy => Links.count_le_count_add_one hnd.2 hitems hx hy⟩
  · rw [h.order k hk, Option.map_map, List.length_map, List.getElem?_map, Option.map_map]
    rfl
  · obtain ⟨k, hk, hhead⟩ := List.getElem_of_mem hmem
    have hk' := hitems k hk
    rw [List.getElem?_eq_getElem hk, hhead] at hk'
    exact hnd.1 (List.mem_of_getElem? hk'.symm)

/-- **The connections go round robin**: in every run of calls of any threads, the `k`-th connection
uses value number `k` modulo the length of the list; the head of the list is never used as a value,
and no value is used more than once more than another. -/
theorem connects_roundRobin (hm : m.Represents opts hosts sockets)
    (hinit : mysqlDrvInit m opts = some (args, s₀)) {outs : List (ConnectResult ν)}
    (h : Connects m args s₀ outs s) :
    ∃ values, sbGetValueList opts (rotatedName sockets) = some values ∧
      RoundRobin (m.head sockets) (rotated hosts sockets) values (args.connBy sockets)
        (outs.filterMap (·.chosen)) := by
  obtain ⟨hempty, hhosts, hsockets, rfl⟩ := mysqlDrvInit_eq_some hinit
  have hne : rotated hosts sockets ≠ [] := by
    rw [hm.hostsRing.isEmpty_eq] at hempty
    unfold rotated
    split_ifs with hs
    · simpa using hempty
    · exact hs
  refine ⟨_, hm.rotatedValues, RotationInv.roundRobin hm (s := s) ?_⟩
  refine Trace.invariant (RotationInv m args hosts sockets) ?_ ?_ h
  · exact ⟨by simp, rfl⟩
  · intro outs s i o s' hinv hs
    obtain ⟨rfl, rfl⟩ := Prod.mk.inj (Option.some.inj hs)
    exact hinv.step hm hne hhosts hsockets i

end Connections

/-! ## Three hosts -/

/-- The options of `mysql_drv_args` that are read here. -/
def mysqlDrvArgs : List Arg :=
  [⟨.lit "mysql-host", .list, some (.lit "localhost")⟩,
    ⟨.lit "mysql-port", .int, some (.lit "3306")⟩, ⟨.lit "mysql-socket", .list, none⟩,
    ⟨.lit "mysql-user", .string, some (.lit "sbtest")⟩,
    ⟨.lit "mysql-password", .string, some (.lit "")⟩,
    ⟨.lit "mysql-db", .string, some (.lit "sbtest")⟩,
    ⟨.lit "mysql-dry-run", .flag, some (.lit "off")⟩]

/-- `--mysql-host=db1,db2,db3`. -/
def threeHosts : Store :=
  (setOption (fun _ => none) (sbRegisterArgSet (fun _ => none) [] mysqlDrvArgs).1
    (.lit "mysql-host") (some (.lit "db1,db2,db3")) .list).1

/-- The list of hosts at the head 0, and the empty list of sockets at the head 4. -/
def threeHostLists : HostLists (Fin 5) where
  links := (Links.listOf ⟨id, id⟩ 0 [1, 2, 3]).listInit 4
  hosts := 0
  sockets := 4
  data := fun item => (.lit "db1" :: .lit "db2" :: [.lit "db3"]).getD (item.val - 1) (.lit "")

theorem represents_threeHostLists : threeHostLists.Represents threeHosts [1, 2, 3] [] where
  hostsRing := ⟨⟨by decide, by decide, by decide, by decide, by decide⟩, by decide⟩
  socketsRing := Links.isRing_listInit _ _
  hostValues := by decide +kernel
  socketValues := by decide +kernel

/-- The driver initialised with these options. -/
def threeHostArgs : MysqlArgs (Fin 5) :=
  ⟨0, 4, 3306, some (.lit "sbtest"), none, some (.lit "sbtest"), false⟩

/-- Four connections to three hosts, the second of which is refused. -/
theorem connects_roundRobin_three :
    ∃ outs s, Connects threeHostLists threeHostArgs ⟨0, 4⟩ outs s ∧
      (outs.filterMap (·.chosen)).map Prod.fst = [1, 2, 3, 1] ∧
      ∃ values, sbGetValueList threeHosts (rotatedName ([] : List (Fin 5))) = some values ∧
        RoundRobin (threeHostLists.head []) (rotated [1, 2, 3] []) values
          (threeHostArgs.connBy []) (outs.filterMap (·.chosen)) := by
  have hinit : mysqlDrvInit threeHostLists threeHosts = some (threeHostArgs, ⟨0, 4⟩) := by
    decide +kernel
  obtain ⟨outs, s, h, hchosen⟩ : ∃ outs s, Connects threeHostLists threeHostArgs ⟨0, 4⟩ outs s ∧
      (outs.filterMap (·.chosen)).map Prod.fst = [1, 2, 3, 1] :=
    ⟨_, _, (((Trace.nil.snoc (i := ⟨0, true, true, true⟩) rfl).snoc
      (i := ⟨1, true, true, false⟩) rfl).snoc (i := ⟨1, true, true, true⟩) rfl).snoc
      (i := ⟨0, true, true, true⟩) rfl, by decide +kernel⟩
  exact ⟨outs, s, h, hchosen, connects_roundRobin represents_threeHostLists hinit h⟩

end Sysbench.Database
