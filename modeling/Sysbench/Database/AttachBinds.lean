import Sysbench.Database.Binds

/-!
# Database/AttachBinds — the parameters that libAttachSQL is given

`attachsql_drv_execute` sets the parameters of a statement one by one.  Its counter has sixteen
bits; the case of the texts has no `break` and runs into that of the unknown types, which sets the
parameter to `NULL`; and no indicator is looked at.  `attachsql_carries_iff` says which statements
are executed with the values that are bound to them.
-/

namespace Sysbench.Database

/-! ## The setters -/

/-- A parameter as a setter of the library leaves it. -/
inductive AttachParam (F : Type)
  | null
  | int (v : ℤ)
  | bigint (v : ℤ)
  | float (v : F)
  | double (v : F)
  | time (hour minute second : UInt32)
  | datetime (tm : DbTime)
  | string (s : CStr)

section Setters

variable {F : Type}

/-- The setter for the type of a parameter. -/
def BindValue.setter : BindValue F → Option (AttachParam F)
  | .none => Option.none
  | .tinyint v => some (.int v.toInt)
  | .smallint v => some (.int v.toInt)
  | .int v => some (.int v.toInt)
  | .bigint v => some (.bigint v.toInt)
  | .float v => some (.float v)
  | .double v => some (.double v)
  | .time tm => some (.time tm.hour tm.minute tm.second)
  | .date tm | .datetime tm | .timestamp tm => some (.datetime tm)
  | .char s | .varchar s => some (.string s)

/-- The switch goes on to the case of the unknown types. -/
def BindValue.fallsThrough : BindValue F → Bool
  | .char _ | .varchar _ | .none => true
  | _ => false

/-- The setters that the switch of `attachsql_drv_execute` calls, in their order. -/
def BindValue.setters (v : BindValue F) : List (AttachParam F) :=
  v.setter.toList ++ if v.fallsThrough then [.null] else []

/-- The parameters of a statement, as they are set so far. -/
abbrev AttachParams (F : Type) : Type := ℕ → Option (AttachParam F)

/-- The setters of one turn, all for the same place. -/
def AttachParams.set (slots : AttachParams F) (i : ℕ) (vs : List (AttachParam F)) :
    AttachParams F :=
  vs.foldl (fun slots v => Function.update slots i (some v)) slots

/-- The loop over the parameters; `i` is a `uint16_t`. -/
def attachLoop (params : List (Bind F)) : ℕ → UInt16 → AttachParams F → Option (AttachParams F)
  | 0, _, _ => none
  | turns + 1, i, slots =>
    match params[i.toNat]? with
    | none => some slots
    | some param =>
      attachLoop params turns (i + 1) (AttachParams.set slots i.toNat param.value.setters)

/-- `attachsql_drv_execute`, up to where the statement is executed. -/
def attachsqlDrvExecute (params : List (Bind F)) (turns : ℕ) : Option (AttachParams F) :=
  attachLoop params turns 0 fun _ => none

/-! ## What is set -/

/-- The parameter is executed with `v` as its value. -/
def Carries (param : Bind F) (v : AttachParam F) : Prop :=
  if param.isNull = some true then v = .null else param.value.setter = some v

/-- What is set for a parameter in the end. -/
def BindValue.sent (v : BindValue F) : AttachParam F :=
  if v.fallsThrough then .null else v.setter.getD .null

theorem set_setters (slots : AttachParams F) (i : ℕ) (v : BindValue F) :
    slots.set i v.setters = Function.update slots i (some v.sent) := by
  cases v <;> simp [AttachParams.set, BindValue.setters, BindValue.setter, BindValue.sent,
    BindValue.fallsThrough]

/-- **A parameter arrives** when it is `NULL` just if the switch makes it so. -/
theorem carries_sent_iff (param : Bind F) :
    Carries param param.value.sent
      ↔ (param.isNull = some true ↔ param.value.fallsThrough = true) := by
  obtain ⟨v, isNull⟩ := param
  by_cases hnull : isNull = some true
  · cases v <;> simp [Carries, hnull, BindValue.sent, BindValue.fallsThrough, BindValue.setter]
  · cases v <;> simp [Carries, hnull, BindValue.sent, BindValue.fallsThrough, BindValue.setter]

/-- What the loop leaves, when it ends. -/
theorem attachLoop_spec {params : List (Bind F)} (hlen : params.length < 2 ^ 16) :
    ∀ {turns : ℕ} {i : UInt16} {slots slots' : AttachParams F}, i.toNat ≤ params.length →
      attachLoop params turns i slots = some slots' →
      (∀ k < i.toNat, slots' k = slots k) ∧
        ∀ k param, i.toNat ≤ k → params[k]? = some param → slots' k = some param.value.sent
  | 0, _, _, _, _, h => nomatch h
  | turns + 1, i, slots, slots', hi, h => by
    rw [attachLoop] at h
    cases hparam : params[i.toNat]? with
    | none =>
      rw [hparam] at h
      obtain rfl := Option.some.inj h
      rw [List.getElem?_eq_none_iff] at hparam
      refine ⟨fun _ _ => rfl, fun k param hk hget => ?_⟩
      have hlt := (List.getElem?_eq_some_iff.mp hget).1
      omega
    | some param =>
      rw [hparam] at h
      dsimp only at h
      have hlt : i.toNat < params.length := (List.getElem?_eq_some_iff.mp hparam).1
      have hsucc : (i + 1).toNat = i.toNat + 1 := by
        rw [UInt16.toNat_add]
        exact Nat.mod_eq_of_lt (by change i.toNat + 1 < 2 ^ 16; omega)
      rw [set_setters] at h
      obtain ⟨hbefore, hafter⟩ := attachLoop_spec hlen (by omega) h
      refine ⟨fun k hk => ?_, fun k p hk hget => ?_⟩
      · rw [hbefore k (by omega), Function.update_of_ne hk.ne]
      · rcases hk.eq_or_lt with rfl | hk
        · rw [hbefore _ (by omega), Function.update_self, Option.some.inj (hparam.symm.trans hget)]
        · exact hafter k p (by omega) hget

/-- With few enough parameters the loop ends. -/
theorem attachLoop_isSome {params : List (Bind F)} (hlen : params.length < 2 ^ 16) :
    ∀ {turns : ℕ} {i : UInt16} (slots : AttachParams F), i.toNat ≤ params.length →
      params.length < i.toNat + turns → (attachLoop params turns i slots).isSome
  | 0, i, _, hi, hturns => by omega
  | turns + 1, i, slots, hi, hturns => by
    rw [attachLoop]
    cases hparam : params[i.toNat]? with
    | none => rfl
    | some param =>
      have hlt : i.toNat < params.length := (List.getElem?_eq_some_iff.mp hparam).1
      have hsucc : (i + 1).toNat = i.toNat + 1 := by
        rw [UInt16.toNat_add]
        exact Nat.mod_eq_of_lt (by change i.toNat + 1 < 2 ^ 16; omega)
      exact attachLoop_isSome hlen _ (by omega) (by omega)

/-- **With `2 ^ 16` parameters the loop does not end**: every value of its counter is the place of
one. -/
theorem attachLoop_endless {params : List (Bind F)} (hlen : 2 ^ 16 ≤ params.length) :
    ∀ (turns : ℕ) (i : UInt16) (slots : AttachParams F), attachLoop params turns i slots = none
  | 0, _, _ => rfl
  | turns + 1, i, slots => by
    have hlt : i.toNat < params.length := i.toNat_lt.trans_le hlen
    rw [attachLoop, List.getElem?_eq_getElem hlt]
    exact attachLoop_endless hlen turns _ _

/-- **Which statements libAttachSQL executes with the values bound to them**: those with less than
`2 ^ 16` parameters, of which just the texts and those of no type are `NULL`. -/
theorem attachsql_carries_iff (params : List (Bind F)) :
    (∃ turns slots, attachsqlDrvExecute params turns = some slots ∧
      ∀ i param, params[i]? = some param → ∃ v, slots i = some v ∧ Carries param v)
    ↔ params.length < 2 ^ 16 ∧
      ∀ param ∈ params, (param.isNull = some true ↔ param.value.fallsThrough = true) := by
  constructor
  · rintro ⟨turns, slots, hrun, hcarries⟩
    have hlen : params.length < 2 ^ 16 := by
      by_contra hlen
      have hnone := attachLoop_endless (not_lt.mp hlen) turns 0 fun _ => none
      exact Option.some_ne_none slots (hrun.symm.trans hnone)
    refine ⟨hlen, fun param hparam => ?_⟩
    obtain ⟨i, hi⟩ := List.mem_iff_getElem?.mp hparam
    obtain ⟨v, hv, hcarried⟩ := hcarries i param hi
    have hsent := (attachLoop_spec hlen (Nat.zero_le _) hrun).2 i param (Nat.zero_le _) hi
    obtain rfl := Option.some.inj (hv.symm.trans hsent)
    exact (carries_sent_iff param).mp hcarried
  · rintro ⟨hlen, hnull⟩
    obtain ⟨slots, hrun⟩ := Option.isSome_iff_exists.mp <|
      attachLoop_isSome (i := 0) hlen (fun _ => none) (Nat.zero_le _)
        (show params.length < 0 + (params.length + 1) by omega)
    refine ⟨params.length + 1, slots, hrun, fun i param hi => ⟨param.value.sent, ?_, ?_⟩⟩
    · exact (attachLoop_spec hlen (Nat.zero_le _) hrun).2 i param (Nat.zero_le _) hi
    · exact (carries_sent_iff param).mpr (hnull param (List.mem_of_getElem? hi))

end Setters

end Sysbench.Database
