import Mathlib.Tactic

/-!
# Machinery/Traces — what a component answers over a whole run

A component is a step function: in a state, an input either gets an answer and a next state, or no
answer at all (the call does not return).  A **trace** is the list of answers of a run, whatever
the inputs were; a property of every run is an invariant relating the answers given so far to the
state reached.
-/

namespace Sysbench

variable {σ ι ω : Type*}

/-- `Trace step s₀ outs s`: from `s₀`, some inputs are answered by `outs` in order and lead to
`s`. -/
inductive Trace (step : σ → ι → Option (ω × σ)) (s₀ : σ) : List ω → σ → Prop
  | nil : Trace step s₀ [] s₀
  | snoc {outs : List ω} {s s' : σ} {i : ι} {o : ω} :
      Trace step s₀ outs s → step s i = some (o, s') → Trace step s₀ (outs ++ [o]) s'

namespace Trace

variable {step : σ → ι → Option (ω × σ)} {s₀ s : σ} {outs : List ω}

/-- **The invariant rule**: what holds at the start and is kept by every answered call holds of
every trace. -/
theorem invariant (I : List ω → σ → Prop) (h₀ : I [] s₀)
    (hstep : ∀ outs s i o s', I outs s → step s i = some (o, s') → I (outs ++ [o]) s')
    (h : Trace step s₀ outs s) : I outs s := by
  induction h with
  | nil => exact h₀
  | snoc _ hs ih => exact hstep _ _ _ _ _ ih hs

/-- Two runs, one after the other. -/
theorem append {s' : σ} {outs' : List ω} (h : Trace step s₀ outs s) (h' : Trace step s outs' s') :
    Trace step s₀ (outs ++ outs') s' := by
  induction h' with
  | nil => simpa using h
  | snoc _ hs ih => rw [← List.append_assoc]; exact ih.snoc hs

/-- The last answer of a run. -/
theorem exists_of_concat {o : ω} (h : Trace step s₀ (outs ++ [o]) s) :
    ∃ s' i, Trace step s₀ outs s' ∧ step s' i = some (o, s) := by
  generalize hall : outs ++ [o] = all at h
  cases h with
  | nil => exact absurd hall (by simp)
  | snoc h hs =>
    obtain ⟨rfl, hlast⟩ := List.append_inj' hall rfl
    obtain rfl := List.singleton_inj.mp hlast
    exact ⟨_, _, h, hs⟩

/-- The answers to a list of calls that are all answered, and the last state. -/
def play (step : σ → ι → Option (ω × σ)) : σ → List ι → Option (List ω × σ)
  | s, [] => some ([], s)
  | s, i :: is => (step s i).bind fun p => (play step p.2 is).map fun q => (p.1 :: q.1, q.2)

theorem of_play {is : List ι} (h : play step s₀ is = some (outs, s)) : Trace step s₀ outs s := by
  induction is generalizing s₀ outs with
  | nil =>
    obtain ⟨rfl, rfl⟩ := Prod.mk.inj (Option.some.inj h)
    exact nil
  | cons i is ih =>
    obtain ⟨⟨o, t⟩, ht, h⟩ := Option.bind_eq_some_iff.mp h
    obtain ⟨⟨outs', u⟩, hplay, h⟩ := Option.map_eq_some_iff.mp h
    obtain ⟨rfl, rfl⟩ := Prod.mk.inj h
    exact append (snoc nil ht) (ih hplay)

end Trace

/-! ## Exact conditions

What a run does is decided by its answers when they, read in order, determine as much of the state
as matters. -/

section Along

variable {α β : Type*} (next : α → β → α) (ok : α → β → Prop)

/-- Along a list, `ok` holds of each element at what `next` has made of the elements before it. -/
def Along : α → List β → Prop
  | _, [] => True
  | a, b :: bs => ok a b ∧ Along (next a b) bs

instance decidableAlong [∀ a b, Decidable (ok a b)] : ∀ a bs, Decidable (Along next ok a bs)
  | _, [] => inferInstanceAs (Decidable True)
  | a, b :: bs =>
    have := decidableAlong (next a b) bs
    inferInstanceAs (Decidable (ok a b ∧ Along next ok (next a b) bs))

variable {next ok}

theorem along_append_singleton {a : α} {bs : List β} {b : β} :
    Along next ok a (bs ++ [b]) ↔ Along next ok a bs ∧ ok (bs.foldl next a) b := by
  induction bs generalizing a with
  | nil => simp [Along]
  | cons b' bs ih => simp [Along, ih, and_assoc]

theorem along_map {γ : Type*} {f : γ → β} {a : α} {cs : List γ} :
    Along next ok a (cs.map f) ↔
      Along (fun a c => next a (f c)) (fun a c => ok a (f c)) a cs := by
  induction cs generalizing a with
  | nil => rfl
  | cons c cs ih => exact and_congr_right fun _ => ih

/-- **The exact rule**: an answer is good precisely when it is acceptable at what is known of the
state, and an acceptable answer keeps that knowledge true.  Then the answers of a run are all good
precisely when they are acceptable one after the other. -/
theorem Trace.forall_iff_along {step : σ → ι → Option (ω × σ)} {next : α → ω → α}
    {ok : α → ω → Prop} {good : ω → Prop} (rel : α → σ → Prop) {a₀ : α} {s₀ s : σ}
    {outs : List ω} (h₀ : rel a₀ s₀)
    (hstep : ∀ a s i o s', rel a s → step s i = some (o, s') →
      (good o ↔ ok a o) ∧ (ok a o → rel (next a o) s'))
    (h : Trace step s₀ outs s) : (∀ o ∈ outs, good o) ↔ Along next ok a₀ outs := by
  refine (h.invariant (fun outs s => ((∀ o ∈ outs, good o) ↔ Along next ok a₀ outs) ∧
    (Along next ok a₀ outs → rel (outs.foldl next a₀) s)) ?_ ?_).1
  · exact ⟨by simp [Along], fun _ => h₀⟩
  · intro outs s i o s' ⟨hiff, hrel⟩ hs
    simp only [List.forall_mem_append, List.forall_mem_singleton, along_append_singleton,
      List.foldl_append, List.foldl_cons, List.foldl_nil, hiff]
    refine ⟨and_congr_right fun hal => ?_, fun ⟨hal, hok⟩ => ?_⟩
    · exact (hstep _ _ _ _ _ (hrel hal) hs).1
    · exact (hstep _ _ _ _ _ (hrel hal) hs).2 hok

end Along

/-! ## Moves

Where several parties move one after the other, a move answers nothing; what a run leaves behind is
its history, each move with the state it was made in. -/

theorem countP_concat {α : Type*} (p : α → Bool) (l : List α) (a : α) :
    (l ++ [a]).countP p = l.countP p + (p a).toNat := by
  rw [List.countP_append, List.countP_singleton, Bool.toNat, cond_eq_ite]

/-- A move, answered by the state it was made in and the move itself. -/
def logged (move : σ → ι → Option σ) (s : σ) (i : ι) : Option ((σ × ι) × σ) :=
  (move s i).map fun s' => ((s, i), s')

/-- `Run move s₀ hist s`: from `s₀`, the moves of `hist` lead to `s`. -/
abbrev Run (move : σ → ι → Option σ) (s₀ : σ) (hist : List (σ × ι)) (s : σ) : Prop :=
  Trace (logged move) s₀ hist s

namespace Run

variable {move : σ → ι → Option σ} {s₀ s s' : σ} {i : ι} {hist : List (σ × ι)}

theorem snoc (h : Run move s₀ hist s) (hs : move s i = some s') :
    Run move s₀ (hist ++ [(s, i)]) s' :=
  Trace.snoc h (by rw [logged, hs]; rfl)

/-- A move leads from one state to the next. -/
theorem move_of_logged {e : σ × ι} (h : logged move s i = some (e, s')) :
    e = (s, i) ∧ move s i = some s' := by
  obtain ⟨t, ht, hp⟩ := Option.map_eq_some_iff.mp h
  obtain ⟨rfl, rfl⟩ := Prod.mk.inj hp
  exact ⟨rfl, ht⟩

/-- **The invariant rule for histories**, which may also speak of the history. -/
theorem induction (I : List (σ × ι) → σ → Prop) (h₀ : I [] s₀)
    (hstep : ∀ hist s i s', I hist s → move s i = some s' → I (hist ++ [(s, i)]) s')
    (h : Run move s₀ hist s) : I hist s := by
  refine Trace.invariant I h₀ (fun hist s i e s' hI hs => ?_) h
  obtain ⟨rfl, hmove⟩ := move_of_logged hs
  exact hstep hist s i s' hI hmove

/-- **A run around one of its moves.** -/
theorem split {hist' : List (σ × ι)} {e : σ × ι} (h : Run move s₀ (hist ++ e :: hist') s) :
    ∃ s', Run move s₀ hist e.1 ∧ move e.1 e.2 = some s' ∧ Run move s' hist' s := by
  induction hist' using List.reverseRecOn generalizing s with
  | nil =>
    obtain ⟨s', i, h', hs⟩ := Trace.exists_of_concat h
    obtain ⟨rfl, hmove⟩ := move_of_logged hs
    exact ⟨s, h', hmove, Trace.nil⟩
  | append_singleton hist' o ih =>
    rw [← List.cons_append, ← List.append_assoc] at h
    obtain ⟨s', i, h', hs⟩ := Trace.exists_of_concat h
    obtain ⟨t, hbefore, hmove, hafter⟩ := ih h'
    exact ⟨t, hbefore, hmove, Trace.snoc hafter hs⟩

/-- **The invariant rule under a condition on the moves.** -/
theorem invariant (I : σ → Prop) (ok : σ × ι → Prop) (h₀ : I s₀)
    (hstep : ∀ s i s', I s → ok (s, i) → move s i = some s' → I s')
    (h : Run move s₀ hist s) (hok : ∀ e ∈ hist, ok e) : I s := by
  refine induction (fun hist s => (∀ e ∈ hist, ok e) → I s) (fun _ => h₀) ?_ h hok
  intro hist s i s' hI hs hall
  rw [List.forall_mem_append, List.forall_mem_singleton] at hall
  exact hstep s i s' (hI hall.1) hall.2 hs

/-- **The exact rule for histories**: where a move is good precisely when the condition holds of it,
and the condition keeps the invariant, the moves of a run are all good precisely when the condition
holds of them all. -/
theorem forall_iff (I : σ → Prop) {good ok : σ × ι → Prop} (h₀ : I s₀)
    (hstep : ∀ s i s', I s → move s i = some s' →
      (good (s, i) ↔ ok (s, i)) ∧ (ok (s, i) → I s'))
    (h : Run move s₀ hist s) : (∀ e ∈ hist, good e) ↔ ∀ e ∈ hist, ok e := by
  refine (induction (fun hist s => ((∀ e ∈ hist, good e) ↔ ∀ e ∈ hist, ok e) ∧
    ((∀ e ∈ hist, ok e) → I s)) ⟨by simp, fun _ => h₀⟩ ?_ h).1
  intro hist s i s' ⟨hiff, hI⟩ hs
  simp only [List.forall_mem_append, List.forall_mem_singleton, hiff]
  refine ⟨and_congr_right fun hall => (hstep s i s' (hI hall) hs).1, fun ⟨hall, hok⟩ => ?_⟩
  exact (hstep s i s' (hI hall) hs).2 hok

/-- **The exact rule for an invariant**: where a move keeps it precisely when the condition holds of
the move, it holds in all states of a run precisely when the condition holds of all moves. -/
theorem reached_iff (I : σ → Prop) {ok : σ × ι → Prop} (h₀ : I s₀)
    (hstep : ∀ s i s', I s → move s i = some s' → (I s' ↔ ok (s, i)))
    (h : Run move s₀ hist s) :
    (∀ e ∈ hist, ∀ s', move e.1 e.2 = some s' → I s') ↔ ∀ e ∈ hist, ok e := by
  refine h.forall_iff I h₀ fun s i s' hI hs => ?_
  have hiff := hstep s i s' hI hs
  refine ⟨⟨fun hall => hiff.mp (hall s' hs), fun hok t ht => ?_⟩, hiff.mpr⟩
  obtain rfl := Option.some.inj (hs.symm.trans ht)
  exact hiff.mpr hok

/-- **The balance rule**: where every move puts aside what it takes in and does not give out, a run
has given out or kept aside all it took in. -/
theorem balance {M : Type*} [AddCommMonoid M] (kept : σ → M) (taken given : σ × ι → M)
    (I : σ → Prop) (ok : σ × ι → Prop) (h₀ : I s₀)
    (hstep : ∀ s i s', I s → ok (s, i) → move s i = some s' →
      I s' ∧ kept s + taken (s, i) = kept s' + given (s, i))
    (h : Run move s₀ hist s) (hok : ∀ e ∈ hist, ok e) :
    kept s₀ + (hist.map taken).sum = kept s + (hist.map given).sum := by
  refine (induction (fun hist s => (∀ e ∈ hist, ok e) →
    I s ∧ kept s₀ + (hist.map taken).sum = kept s + (hist.map given).sum)
    (fun _ => ⟨h₀, rfl⟩) ?_ h hok).2
  intro hist s i s' hind hs hall
  rw [List.forall_mem_append, List.forall_mem_singleton] at hall
  obtain ⟨hI, hsum⟩ := hind hall.1
  obtain ⟨hI', hmove⟩ := hstep s i s' hI hall.2 hs
  refine ⟨hI', ?_⟩
  simp only [List.map_append, List.map_singleton, List.sum_append, List.sum_singleton]
  rw [← add_assoc, hsum, add_right_comm, hmove, add_right_comm, add_assoc]

/-- The history and the last state of a list of moves. -/
def play (move : σ → ι → Option σ) : σ → List ι → Option (List (σ × ι) × σ)
  | s, [] => some ([], s)
  | s, i :: is => (move s i).bind fun s' =>
    (play move s' is).map fun p => ((s, i) :: p.1, p.2)

theorem of_play {is : List ι} (h : play move s is = some (hist, s')) : Run move s hist s' := by
  induction is generalizing s hist with
  | nil =>
    obtain ⟨rfl, rfl⟩ := Prod.mk.inj (Option.some.inj h)
    exact Trace.nil
  | cons i is ih =>
    obtain ⟨t, ht, h⟩ := Option.bind_eq_some_iff.mp h
    obtain ⟨⟨hist', u⟩, hplay, h⟩ := Option.map_eq_some_iff.mp h
    obtain ⟨rfl, rfl⟩ := Prod.mk.inj h
    exact Trace.append (Run.snoc Trace.nil ht) (ih hplay)

end Run

/-! ## Answers to a list of calls

Two levels of one component: what the lower answers is what the upper does when each of its steps is
one of the upper's. -/

section Answers

variable {τ κ : Type*}

/-- The answers to a list of calls, of those that have one, and the state after them. -/
def answers (step : σ → ι → Option (Option ω × σ)) : σ → List ι → Option (List ω × σ)
  | s, [] => some ([], s)
  | s, i :: is => (step s i).bind fun p =>
    (answers step p.2 is).map fun q => (p.1.toList ++ q.1, q.2)

theorem answers_cons {step : σ → ι → Option (Option ω × σ)} {s s' t : σ} {i : ι} {is : List ι}
    {o : Option ω} {os : List ω} (hs : step s i = some (o, s'))
    (h : answers step s' is = some (os, t)) :
    answers step s (i :: is) = some (o.toList ++ os, t) := by
  rw [answers, hs, Option.bind_some, h, Option.map_some]

/-- **The simulation rule**: a map of the states that carries each step to a step carries runs to
runs with the same answers. -/
theorem answers_simulation {step : σ → ι → Option (Option ω × σ)}
    {step' : τ → κ → Option (Option ω × τ)} {f : σ → τ} {g : ι → κ}
    (hstep : ∀ s i, (step s i).map (Prod.map id f) = step' (f s) (g i)) (s : σ) (is : List ι) :
    (answers step s is).map (Prod.map id f) = answers step' (f s) (is.map g) := by
  induction is generalizing s with
  | nil => rfl
  | cons i is ih =>
    rw [List.map_cons, answers, answers, ← hstep]
    cases step s i with
    | none => rfl
    | some p =>
      simp only [Option.bind_some, Option.map_some, Prod.map_snd, Prod.map_fst, id, ← ih,
        Option.map_map]
      rfl

end Answers

/-! ## Parties of their own

Where a move concerns the state of the party that makes it and no other, a run of all the parties is
the runs of each, in any interleaving. -/

section Parties

variable {κ : Type*} [DecidableEq κ] {move : σ → ι → Option σ} {f f' : κ → σ} {i : κ × ι}

/-- A move of party `i.1`. -/
def each (move : σ → ι → Option σ) (f : κ → σ) (i : κ × ι) : Option (κ → σ) :=
  (move (f i.1) i.2).map (Function.update f i.1)

/-- The party of a run with one party. -/
def soleParty : Fin 1 := ⟨0, Nat.one_pos⟩

/-- A move as the party that makes it sees it. -/
def own (e : (κ → σ) × (κ × ι)) : σ × ι := (e.1 e.2.1, e.2.2)

theorem each_eq_some (h : each move f i = some f') :
    ∃ s', move (f i.1) i.2 = some s' ∧ f' = Function.update f i.1 s' := by
  obtain ⟨s', hmove, hf'⟩ := Option.map_eq_some_iff.mp h
  exact ⟨s', hmove, hf'.symm⟩

/-- What holds of every party still does after a move of one exactly when it holds of that one. -/
theorem forall_update_of_forall {I : σ → Prop} {k : κ} {s' : σ} (hI : ∀ k, I (f k)) :
    (∀ k', I (Function.update f k s' k')) ↔ I s' := by
  rw [Function.forall_update_iff f fun _ => I]
  exact and_iff_left fun k' _ => hI k'

end Parties

/-! ## What the parties hold together

A move of one party changes the sum over all of them by what it changes of that party. -/

section Sums

variable {M β : Type*} [AddCommMonoid M] {n k : ℕ}

/-- Two families that differ in one party. -/
theorem sum_add_eq_of_ne {ι : Type*} [DecidableEq ι] {t : Finset ι} {i : ι} {f g : ι → M}
    (hi : i ∈ t) (h : ∀ j, j ≠ i → f j = g j) :
    ∑ j ∈ t, f j + g i = ∑ j ∈ t, g j + f i := by
  have hrest : ∑ j ∈ t.erase i, f j = ∑ j ∈ t.erase i, g j :=
    Finset.sum_congr rfl fun j hj => h j (Finset.ne_of_mem_erase hj)
  rw [← Finset.add_sum_erase _ f hi, ← Finset.add_sum_erase _ g hi, hrest]
  abel

/-- One party comes to hold `a` more. -/
theorem sum_update_of_eq_add (held : β → M) {f : ℕ → β} {b : β} {a : M} (hk : k < n)
    (h : held b = held (f k) + a) :
    ∑ i ∈ Finset.range n, held (Function.update f k b i)
      = ∑ i ∈ Finset.range n, held (f i) + a := by
  have hmem : k ∈ Finset.range n := Finset.mem_range.mpr hk
  have hrest : ∑ i ∈ (Finset.range n).erase k, held (Function.update f k b i)
      = ∑ i ∈ (Finset.range n).erase k, held (f i) :=
    Finset.sum_congr rfl fun i hi => by rw [Function.update_of_ne (Finset.ne_of_mem_erase hi)]
  rw [← Finset.add_sum_erase _ _ hmem, ← Finset.add_sum_erase _ (fun i => held (f i)) hmem, hrest,
    Function.update_self, h]
  abel

end Sums

end Sysbench
