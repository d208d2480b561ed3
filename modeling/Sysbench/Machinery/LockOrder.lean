import Mathlib.Data.Fintype.Lattice
import Sysbench.Machinery.Traces

/-!
# Machinery/LockOrder — locks taken in the order of a rank

A **lock program** says which locks a thread takes, in which nesting, with choices and loops; a path
of it is what one execution does.  Threads that run paths of their programs get into each other's
way only at the locks.  When every program takes a lock inside another only if its rank is higher,
the threads cannot stop: the one that waits for the lock of the highest rank waits for a thread that
can go on.
-/

namespace Sysbench

variable {κ τ : Type*}

/-- What a thread does with a lock. -/
inductive LockOp (κ : Type*)
  | acquire (l : κ)
  | release (l : κ)
  deriving DecidableEq

/-- A lock program: a section under a lock, one program after another, one or the other, and any
number of times. -/
inductive LockProg (κ : Type*)
  | skip
  | crit (l : κ) (body : LockProg κ)
  | seq (p q : LockProg κ)
  | choice (p q : LockProg κ)
  | star (p : LockProg κ)

namespace LockProg

/-- A section under a lock in which no other is taken. -/
def leaf (l : κ) : LockProg κ := .crit l .skip

/-- The program, or nothing. -/
def maybe (p : LockProg κ) : LockProg κ := .choice p .skip

/-- The program if the condition holds. -/
def when (b : Bool) (p : LockProg κ) : LockProg κ := if b then p else .skip

/-- One after the other. -/
def all : List (LockProg κ) → LockProg κ
  | [] => .skip
  | p :: ps => .seq p (all ps)

/-- The section under the lock, if the condition holds, and else its body alone. -/
def critWhen (b : Bool) (l : κ) (body : LockProg κ) : LockProg κ := if b then .crit l body else body

/-- What an execution of a program does with the locks. -/
inductive Path : LockProg κ → List (LockOp κ) → Prop
  | skip : Path .skip []
  | crit {l : κ} {p : LockProg κ} {ops : List (LockOp κ)} :
      Path p ops → Path (.crit l p) (.acquire l :: (ops ++ [.release l]))
  | seq {p q : LockProg κ} {ops ops' : List (LockOp κ)} :
      Path p ops → Path q ops' → Path (.seq p q) (ops ++ ops')
  | left {p q : LockProg κ} {ops : List (LockOp κ)} : Path p ops → Path (.choice p q) ops
  | right {p q : LockProg κ} {ops : List (LockOp κ)} : Path q ops → Path (.choice p q) ops
  | done {p : LockProg κ} : Path (.star p) []
  | again {p : LockProg κ} {ops ops' : List (LockOp κ)} :
      Path p ops → Path (.star p) ops' → Path (.star p) (ops ++ ops')

/-- The path with every first choice and one turn of every loop. -/
def firstPath : LockProg κ → List (LockOp κ)
  | .skip => []
  | .crit l p => .acquire l :: (firstPath p ++ [.release l])
  | .seq p q => firstPath p ++ firstPath q
  | .choice p _ => firstPath p
  | .star p => firstPath p ++ []

theorem path_firstPath : ∀ p : LockProg κ, Path p p.firstPath
  | .skip => .skip
  | .crit _ p => .crit (path_firstPath p)
  | .seq p q => .seq (path_firstPath p) (path_firstPath q)
  | .choice p _ => .left (path_firstPath p)
  | .star p => .again (path_firstPath p) .done

theorem path_seq {p q : LockProg κ} {ops : List (LockOp κ)} :
    Path (.seq p q) ops ↔ ∃ ops₁ ops₂, Path p ops₁ ∧ Path q ops₂ ∧ ops = ops₁ ++ ops₂ := by
  refine ⟨fun h => ?_, fun ⟨_, _, hp, hq, hops⟩ => hops ▸ .seq hp hq⟩
  cases h with
  | seq hp hq => exact ⟨_, _, hp, hq, rfl⟩

/-- A path through a list of programs goes through each of them. -/
theorem path_all_of_mem {ps : List (LockProg κ)} {p : LockProg κ} {ops : List (LockOp κ)}
    (h : Path (all ps) ops) (hp : p ∈ ps) : ∃ part, Path p part ∧ part ⊆ ops := by
  induction ps generalizing ops with
  | nil => cases hp
  | cons q ps ih =>
    obtain ⟨ops₁, ops₂, hfirst, hrest, rfl⟩ := path_seq.mp h
    rcases List.mem_cons.mp hp with rfl | hp
    · exact ⟨ops₁, hfirst, List.subset_append_left ..⟩
    · obtain ⟨part, hpart, hsub⟩ := ih hrest hp
      exact ⟨part, hpart, List.subset_append_of_subset_right _ hsub⟩

/-- The locks of a program have at least the rank `n`, and a higher one inside a section. -/
def Above (rank : κ → ℕ) : ℕ → LockProg κ → Prop
  | _, .skip => True
  | n, .crit l body => n ≤ rank l ∧ Above rank (rank l + 1) body
  | n, .seq p q => Above rank n p ∧ Above rank n q
  | n, .choice p q => Above rank n p ∧ Above rank n q
  | n, .star p => Above rank n p

variable {rank : κ → ℕ} {n m : ℕ} {p q : LockProg κ} {l : κ}

theorem Above.mono (h : Above rank n p) (hmn : m ≤ n) : Above rank m p := by
  induction p generalizing n m with
  | skip => trivial
  | crit l body => exact ⟨hmn.trans h.1, h.2⟩
  | seq p q ihp ihq => exact ⟨ihp h.1 hmn, ihq h.2 hmn⟩
  | choice p q ihp ihq => exact ⟨ihp h.1 hmn, ihq h.2 hmn⟩
  | star p ih => exact ih (show Above rank n p from h) hmn

@[simp] theorem above_skip : Above rank n (.skip : LockProg κ) := trivial

@[simp] theorem above_crit : Above rank n (.crit l p) ↔ n ≤ rank l ∧ Above rank (rank l + 1) p :=
  Iff.rfl

@[simp] theorem above_seq : Above rank n (.seq p q) ↔ Above rank n p ∧ Above rank n q := Iff.rfl

@[simp] theorem above_choice :
    Above rank n (.choice p q) ↔ Above rank n p ∧ Above rank n q := Iff.rfl

@[simp] theorem above_star : Above rank n (.star p) ↔ Above rank n p := Iff.rfl

@[simp] theorem above_leaf : Above rank n (leaf l) ↔ n ≤ rank l := and_iff_left trivial

@[simp] theorem above_maybe : Above rank n (maybe p) ↔ Above rank n p := and_iff_left trivial

@[simp] theorem above_when {b : Bool} : Above rank n (when b p) ↔ b = true → Above rank n p := by
  cases b <;> simp [when]

@[simp] theorem above_all {ps : List (LockProg κ)} :
    Above rank n (all ps) ↔ ∀ p ∈ ps, Above rank n p := by
  induction ps with
  | nil => simp [all]
  | cons p ps ih => simp [all, ih]

theorem above_critWhen {b : Bool} (hl : n ≤ rank l) (h : Above rank (rank l + 1) p) :
    Above rank n (critWhen b l p) := by
  cases b with
  | true => exact ⟨hl, h⟩
  | false => exact h.mono (hl.trans (Nat.le_succ _))

end LockProg

/-! ## Paths in order -/

/-- From the locks `held`, last taken first, each lock is taken above those that are held and given
back in turn, and none is held at the end. -/
def Ascends (rank : κ → ℕ) : (held : List κ) → List (LockOp κ) → Prop
  | held, [] => held = []
  | held, .acquire l :: ops => (∀ h ∈ held, rank h < rank l) ∧ Ascends rank (l :: held) ops
  | [], .release _ :: _ => False
  | h :: held, .release l :: ops => l = h ∧ Ascends rank held ops

/-- **A program above its locks runs in order**, whatever is held below them. -/
theorem LockProg.Path.ascends {rank : κ → ℕ} {p : LockProg κ} {ops : List (LockOp κ)}
    (h : Path p ops) {n : ℕ} (habove : Above rank n p) {held : List κ}
    (hheld : ∀ h ∈ held, rank h < n) {rest : List (LockOp κ)} (hrest : Ascends rank held rest) :
    Ascends rank held (ops ++ rest) := by
  induction h generalizing n held rest with
  | skip => exact hrest
  | @crit l p ops _ ih =>
    obtain ⟨hl, hbody⟩ := habove
    have hbelow : ∀ h ∈ held, rank h < rank l := fun h hh => (hheld h hh).trans_le hl
    rw [List.cons_append, List.append_assoc]
    refine ⟨hbelow, ih hbody (fun h hh => ?_) ⟨rfl, hrest⟩⟩
    rcases List.mem_cons.mp hh with rfl | hh
    · exact Nat.lt_succ_self _
    · exact (hbelow h hh).trans (Nat.lt_succ_self _)
  | seq _ _ ihp ihq =>
    rw [List.append_assoc]
    exact ihp habove.1 hheld (ihq habove.2 hheld hrest)
  | left _ ih => exact ih habove.1 hheld hrest
  | right _ ih => exact ih habove.2 hheld hrest
  | done => exact hrest
  | again _ _ ihp ihq =>
    rw [List.append_assoc]
    exact ihp habove hheld (ihq habove hheld hrest)

/-- A lock that is not held is taken before it is given back. -/
theorem Ascends.exists_acquire {rank : κ → ℕ} {held : List κ} {ops : List (LockOp κ)} {l : κ}
    (h : Ascends rank held ops) (hnot : l ∉ held) (hmem : .acquire l ∈ ops) :
    ∃ pre post, ops = pre ++ .acquire l :: post ∧ .release l ∉ pre := by
  induction ops generalizing held with
  | nil => cases hmem
  | cons op ops ih =>
    cases op with
    | acquire l' =>
      by_cases hl : l' = l
      · exact ⟨[], ops, by rw [hl]; rfl, List.not_mem_nil⟩
      · have hmem' : .acquire l ∈ ops := (List.mem_cons.mp hmem).resolve_left fun he =>
          hl (LockOp.acquire.inj he).symm
        obtain ⟨pre, post, rfl, hpre⟩ := ih h.2 (by simp [Ne.symm hl, hnot]) hmem'
        exact ⟨.acquire l' :: pre, post, rfl, by simp [hpre]⟩
    | release l' =>
      cases held with
      | nil => exact h.elim
      | cons h' held =>
        obtain ⟨rfl, h⟩ := h
        have hl : l' ≠ l := fun he => hnot (he ▸ List.mem_cons_self)
        have hmem' : .acquire l ∈ ops := (List.mem_cons.mp hmem).resolve_left (by simp)
        obtain ⟨pre, post, rfl, hpre⟩ := ih h (fun hh => hnot (List.mem_cons_of_mem _ hh)) hmem'
        exact ⟨.release l' :: pre, post, rfl, by simp [hpre, Ne.symm hl]⟩

/-! ## Threads with locks -/

/-- Who holds each lock, and what each thread still does. -/
structure LockState (κ τ : Type*) where
  owner : κ → Option τ
  todo : τ → List (LockOp κ)

variable [DecidableEq κ] [DecidableEq τ]

/-- The next step of thread `t`, if it can make it; a thread gives back only what it holds. -/
def lockMove (s : LockState κ τ) (t : τ) : Option (LockState κ τ) :=
  match s.todo t with
  | [] => none
  | .acquire l :: ops =>
    if s.owner l = none then
      some ⟨Function.update s.owner l (some t), Function.update s.todo t ops⟩
    else none
  | .release l :: ops =>
    if s.owner l = some t then
      some ⟨Function.update s.owner l none, Function.update s.todo t ops⟩
    else none

/-- Nobody holds a lock. -/
def startLocks (todo : τ → List (LockOp κ)) : LockState κ τ := ⟨fun _ => none, todo⟩

/-- **In order**: what each thread still does is in order from the locks that it holds. -/
def LocksAscend (rank : κ → ℕ) (s : LockState κ τ) : Prop :=
  ∀ t, ∃ held, Ascends rank held (s.todo t) ∧ held.Nodup ∧ ∀ l, s.owner l = some t ↔ l ∈ held

variable {rank : κ → ℕ} {s s' : LockState κ τ} {t u : τ} {l : κ} {ops : List (LockOp κ)}

/-- What a step can do. -/
theorem lockMove_cases (h : lockMove s t = some s') :
    (∃ l ops, s.todo t = .acquire l :: ops ∧ s.owner l = none ∧
      s' = ⟨Function.update s.owner l (some t), Function.update s.todo t ops⟩) ∨
    ∃ l ops, s.todo t = .release l :: ops ∧ s.owner l = some t ∧
      s' = ⟨Function.update s.owner l none, Function.update s.todo t ops⟩ := by
  unfold lockMove at h
  split at h
  next => cases h
  next l ops htodo =>
    obtain ⟨hfree, h⟩ := Option.ite_none_right_eq_some.mp h
    exact .inl ⟨l, ops, htodo, hfree, (Option.some.inj h).symm⟩
  next l ops htodo =>
    obtain ⟨hown, h⟩ := Option.ite_none_right_eq_some.mp h
    exact .inr ⟨l, ops, htodo, hown, (Option.some.inj h).symm⟩

omit [DecidableEq κ] [DecidableEq τ] in
theorem locksAscend_start {todo : τ → List (LockOp κ)} (h : ∀ t, Ascends rank [] (todo t)) :
    LocksAscend rank (startLocks todo) :=
  fun t => ⟨[], h t, List.nodup_nil, fun l => by simp [startLocks]⟩

/-- **Every step keeps the order.** -/
theorem locksAscend_move (h : LocksAscend rank s) (hs : lockMove s t = some s') :
    LocksAscend rank s' := by
  rcases lockMove_cases hs with ⟨l, ops, htodo, hfree, rfl⟩ | ⟨l, ops, htodo, hmine, rfl⟩
  · intro u
    obtain ⟨held, horder, hnodup, hown⟩ := h u
    by_cases hu : u = t
    · subst hu
      rw [htodo] at horder
      have hnew : l ∉ held := fun hl => by simp [(hown l).mpr hl] at hfree
      refine ⟨l :: held, ?_, List.nodup_cons.mpr ⟨hnew, hnodup⟩, fun l' => ?_⟩
      · simpa only [Function.update_self] using horder.2
      · by_cases hl' : l' = l
        · simp [hl']
        · simp [hown, hl']
    · refine ⟨held, by simpa only [Function.update_of_ne hu] using horder, hnodup, fun l' => ?_⟩
      by_cases hl' : l' = l
      · subst hl'
        have hnot : l' ∉ held := fun hl => by simp [(hown l').mpr hl] at hfree
        simp [hnot, Ne.symm hu]
      · simp only [Function.update_of_ne hl', hown]
  · -- the thread gives back the lock it took last
    obtain ⟨held, horder, hnodup, hown⟩ := h t
    rw [htodo] at horder
    cases held with
    | nil => exact horder.elim
    | cons h' held =>
      obtain ⟨rfl, horder⟩ := horder
      obtain ⟨hnot, hnodup⟩ := List.nodup_cons.mp hnodup
      intro u
      by_cases hu : u = t
      · subst hu
        refine ⟨held, by simpa only [Function.update_self] using horder, hnodup, fun l' => ?_⟩
        by_cases hl' : l' = l
        · simp [hl', hnot]
        · simp [hown, hl']
      · obtain ⟨held', horder', hnodup', hown'⟩ := h u
        refine ⟨held', by simpa only [Function.update_of_ne hu] using horder',
          hnodup', fun l' => ?_⟩
        by_cases hl' : l' = l
        · subst hl'
          have hnot' : l' ∉ held' := fun hl => by
            rw [(hown' l').mpr hl] at hmine
            exact hu (Option.some.inj hmine)
          simp [hnot']
        · simp only [Function.update_of_ne hl', hown']

/-- A thread in order that cannot go on has ended, or wants a lock that is held. -/
theorem LocksAscend.todo_of_none (h : LocksAscend rank s) (hstuck : lockMove s t = none) :
    s.todo t = [] ∨ ∃ l ops u, s.todo t = .acquire l :: ops ∧ s.owner l = some u := by
  unfold lockMove at hstuck
  split at hstuck
  next htodo => exact .inl htodo
  next l ops htodo =>
    split at hstuck
    next => cases hstuck
    next hheld =>
      obtain ⟨u, hu⟩ := Option.ne_none_iff_exists'.mp hheld
      exact .inr ⟨l, ops, u, htodo, hu⟩
  next l ops htodo =>
    obtain ⟨held, horder, -, hown⟩ := h t
    rw [htodo] at horder
    cases held with
    | nil => exact horder.elim
    | cons h' held =>
      rw [if_pos ((hown l).mpr (horder.1 ▸ List.mem_cons_self))] at hstuck
      cases hstuck

/-- **A thread that waits waits for one that has not ended, and that one, if it waits too, for a
lock of a higher rank.** -/
theorem LocksAscend.owner_waits (h : LocksAscend rank s) (hown : s.owner l = some u)
    (hstuck : lockMove s u = none) :
    ∃ l' ops, s.todo u = .acquire l' :: ops ∧ rank l < rank l' := by
  obtain ⟨held, horder, -, howns⟩ := h u
  have hmem := (howns l).mp hown
  rcases h.todo_of_none hstuck with htodo | ⟨l', ops, v, htodo, -⟩
  · rw [htodo] at horder
    obtain rfl : held = [] := horder
    cases hmem
  · rw [htodo] at horder
    exact ⟨l', ops, htodo, horder.1 l hmem⟩

/-- **A thread that takes a lock it holds never gets past it**, whatever the others do. -/
theorem reacquires_forever {ops rest : List (LockOp κ)} {hist : List (LockState κ τ × τ)}
    (hown : s.owner l = some t) (htodo : s.todo t = ops ++ .acquire l :: rest)
    (hkeep : .release l ∉ ops) (hrun : Run lockMove s hist s') :
    s'.owner l = some t ∧ ∃ ops', s'.todo t = ops' ++ .acquire l :: rest := by
  have hall := hrun.invariant (fun s => s.owner l = some t ∧
    ∃ ops, s.todo t = ops ++ .acquire l :: rest ∧ .release l ∉ ops) (fun _ => True)
    ⟨hown, ops, htodo, hkeep⟩ ?_ fun _ _ => trivial
  · obtain ⟨hown', ops', htodo', -⟩ := hall
    exact ⟨hown', ops', htodo'⟩
  intro s u s' ⟨hown, ops, htodo, hkeep⟩ _ hmove
  rcases lockMove_cases hmove with ⟨l', ops', hnext, hfree, rfl⟩ | ⟨l', ops', hnext, hmine, rfl⟩
  · have hl : l' ≠ l := fun he => by simp [← he, hfree] at hown
    refine ⟨by simpa [Function.update_of_ne hl.symm] using hown, ?_⟩
    by_cases hu : u = t
    · subst hu
      cases ops with
      | nil =>
        rw [hnext, List.nil_append, List.cons.injEq] at htodo
        exact absurd (LockOp.acquire.inj htodo.1) hl
      | cons op ops =>
        rw [hnext, List.cons_append, List.cons.injEq] at htodo
        exact ⟨ops, by simpa using htodo.2, fun hmem => hkeep (List.mem_cons_of_mem _ hmem)⟩
    · exact ⟨ops, by simpa [Function.update_of_ne (Ne.symm hu)] using htodo, hkeep⟩
  · by_cases hu : u = t
    · subst hu
      cases ops with
      | nil => simp [hnext] at htodo
      | cons op ops =>
        rw [hnext, List.cons_append, List.cons.injEq] at htodo
        have hl : l' ≠ l := fun he => hkeep (by rw [← htodo.1, he]; exact List.mem_cons_self)
        refine ⟨by simpa [Function.update_of_ne hl.symm] using hown, ops, by simpa using htodo.2,
          fun hmem => hkeep (List.mem_cons_of_mem _ hmem)⟩
    · have hl : l' ≠ l := fun he => by
        rw [he, hown] at hmine
        exact hu (Option.some.inj hmine).symm
      exact ⟨by simpa [Function.update_of_ne hl.symm] using hown, ops,
        by simpa [Function.update_of_ne (Ne.symm hu)] using htodo, hkeep⟩

variable [Finite τ]

/-- One above the rank of the lock that comes next, if one comes next. -/
def wantedRank (rank : κ → ℕ) : List (LockOp κ) → ℕ
  | .acquire l :: _ => rank l + 1
  | _ => 0

/-- **No deadlock**: while the order is kept, some thread can go on unless all have ended. -/
theorem LocksAscend.exists_move (h : LocksAscend rank s) (ht : s.todo t ≠ []) :
    ∃ u, lockMove s u ≠ none := by
  by_contra hall
  simp only [not_exists, not_not] at hall
  have : Nonempty τ := ⟨t⟩
  -- of the threads that wait, one wants the highest lock
  obtain ⟨u, hmax⟩ := Finite.exists_max fun u => wantedRank rank (s.todo u)
  have hpos : 0 < wantedRank rank (s.todo u) := by
    rcases h.todo_of_none (hall t) with hnil | ⟨l, ops, v, htodo, -⟩
    · exact (ht hnil).elim
    · have hle := hmax t
      simp only [htodo, wantedRank] at hle ⊢
      omega
  rcases h.todo_of_none (hall u) with hnil | ⟨l, ops, v, htodo, hown⟩
  · simp [wantedRank, hnil] at hpos
  · obtain ⟨l', ops', htodo', hlt⟩ := h.owner_waits hown (hall v)
    have hle := hmax v
    simp only [htodo, htodo', wantedRank] at hle
    omega

omit [Finite τ]

variable [Fintype τ]

/-- What is left to do. -/
def workLeft (s : LockState κ τ) : ℕ := ∑ t, (s.todo t).length

theorem workLeft_move (h : lockMove s t = some s') : workLeft s' + 1 = workLeft s := by
  have hothers : ∀ u, u ≠ t → (s'.todo u).length = (s.todo u).length := by
    intro u hu
    rcases lockMove_cases h with ⟨l, ops, -, -, rfl⟩ | ⟨l, ops, -, -, rfl⟩ <;>
      simp only [Function.update_of_ne hu]
  have hown : (s.todo t).length = (s'.todo t).length + 1 := by
    rcases lockMove_cases h with ⟨l, ops, htodo, -, rfl⟩ | ⟨l, ops, htodo, -, rfl⟩ <;>
      simp [htodo]
  have hsum := sum_add_eq_of_ne (Finset.mem_univ t) hothers
  unfold workLeft
  omega

/-- **Every run can be completed.** -/
theorem LocksAscend.exists_completion (h : LocksAscend rank s) :
    ∃ hist s', Run lockMove s hist s' ∧ ∀ t, s'.todo t = [] := by
  generalize hn : workLeft s = n
  induction n generalizing s with
  | zero =>
    refine ⟨[], s, Trace.nil, fun t => ?_⟩
    have hzero := (Finset.sum_eq_zero_iff.mp hn) t (Finset.mem_univ t)
    exact List.length_eq_zero_iff.mp hzero
  | succ n ih =>
    have hbusy : ∃ t, s.todo t ≠ [] := by
      by_contra hnone
      simp only [not_exists, not_not] at hnone
      simp [workLeft, hnone] at hn
    obtain ⟨t, ht⟩ := hbusy
    obtain ⟨u, hu⟩ := h.exists_move ht
    obtain ⟨s₁, hmove⟩ := Option.ne_none_iff_exists'.mp hu
    have hwork := workLeft_move hmove
    obtain ⟨hist, s', hrun, hdone⟩ := ih (locksAscend_move h hmove) (by omega)
    exact ⟨_, s', Trace.append (Run.snoc Trace.nil hmove) hrun, hdone⟩

/-- **Threads whose programs stay above their locks can always complete**: from every state that a
run of theirs reaches. -/
theorem exists_completion_of_above {prog : τ → LockProg κ} (habove : ∀ t, (prog t).Above rank 0)
    {todo : τ → List (LockOp κ)} (hpath : ∀ t, (prog t).Path (todo t))
    {hist : List (LockState κ τ × τ)} (hrun : Run lockMove (startLocks todo) hist s) :
    ∃ hist' s', Run lockMove s hist' s' ∧ ∀ t, s'.todo t = [] := by
  have hstart : ∀ t, Ascends rank [] (todo t) := fun t => by
    simpa using (hpath t).ascends (habove t) (by simp) (show Ascends rank [] [] from rfl)
  have hascend : LocksAscend rank s := hrun.invariant (LocksAscend rank) (fun _ => True)
    (locksAscend_start hstart) (fun _ _ _ h _ hs => locksAscend_move h hs) fun _ _ => trivial
  exact hascend.exists_completion

end Sysbench
