import Mathlib.Tactic

/-!
# Machinery/ListRuns — runs of equal elements in a list

What a run-length encoder has to know of a list is its last element and how often that came again
right before, without a bound on the number.  This **last run** is a fold, and it decides which runs
end the list (`replicate_suffix_iff`); so a list has no run longer than `n` exactly when none of the
last runs on the way was.
-/

namespace Sysbench

variable {α : Type*}

/-- The last element of a run that ends a list. -/
theorem replicate_succ_suffix_concat {l : List α} {a b : α} {n : ℕ} :
    List.replicate (n + 1) a <:+ l ++ [b] ↔ List.replicate n a <:+ l ∧ a = b := by
  rw [List.suffix_concat_iff, List.replicate_succ']
  constructor
  · rintro (hnil | ⟨t, ht, hsuffix⟩)
    · simp at hnil
    · obtain ⟨rfl, hab⟩ := List.append_inj' ht rfl
      exact ⟨hsuffix, List.singleton_inj.mp hab⟩
  · rintro ⟨hsuffix, rfl⟩
    exact .inr ⟨_, rfl, hsuffix⟩

variable [DecidableEq α]

/-- One more element. -/
def nextRun (run : Option (α × ℕ)) (a : α) : Option (α × ℕ) :=
  match run with
  | none => some (a, 0)
  | some (b, n) => some (if a = b then (b, n + 1) else (a, 0))

/-- The last element, and how often it has been repeated. -/
def lastRun (l : List α) : Option (α × ℕ) := l.foldl nextRun none

theorem lastRun_concat (l : List α) (a : α) : lastRun (l ++ [a]) = nextRun (lastRun l) a := by
  rw [lastRun, List.foldl_append]
  rfl

theorem nextRun_self (a : α) (n : ℕ) : nextRun (some (a, n)) a = some (a, n + 1) := by
  rw [nextRun, if_pos rfl]

theorem nextRun_of_ne {a b : α} (h : a ≠ b) (n : ℕ) : nextRun (some (b, n)) a = some (a, 0) := by
  rw [nextRun, if_neg h]

/-- **The length of the last run.** -/
theorem replicate_suffix_iff {l : List α} {a : α} {n : ℕ} :
    List.replicate (n + 1) a <:+ l ↔ ∃ m, n ≤ m ∧ lastRun l = some (a, m) := by
  induction l using List.reverseRecOn generalizing n with
  | nil => simp [lastRun]
  | append_singleton l b ih =>
    rw [replicate_succ_suffix_concat, lastRun_concat]
    cases n with
    | zero =>
      -- a run of one element ends every list that ends in it
      rcases lastRun l with _ | ⟨c, m⟩
      · simp [nextRun, eq_comm]
      · by_cases hbc : b = c <;> simp [nextRun, hbc, eq_comm]
    | succ n =>
      rw [ih]
      rcases lastRun l with _ | ⟨c, m⟩
      · simp [nextRun]
      · by_cases hbc : b = c
        · subst hbc
          rw [nextRun_self]
          constructor
          · rintro ⟨⟨m', hm, heq⟩, rfl⟩
            obtain ⟨-, rfl⟩ := Prod.mk.inj (Option.some.inj heq)
            exact ⟨m + 1, by omega, rfl⟩
          · rintro ⟨m', hm, heq⟩
            obtain ⟨rfl, rfl⟩ := Prod.mk.inj (Option.some.inj heq)
            exact ⟨⟨m, by omega, rfl⟩, rfl⟩
        · rw [nextRun_of_ne hbc]
          constructor
          · rintro ⟨⟨m', -, heq⟩, rfl⟩
            exact absurd (Prod.mk.inj (Option.some.inj heq)).1.symm hbc
          · rintro ⟨m', hm, heq⟩
            obtain ⟨-, rfl⟩ := Prod.mk.inj (Option.some.inj heq)
            exact absurd hm (Nat.not_succ_le_zero n)

/-- No run is longer than `n` in a list that ends in a run. -/
theorem forall_not_infix_concat_iff {l : List α} {a : α} {m n : ℕ}
    (h : lastRun (l ++ [a]) = some (a, m)) :
    (∀ b, ¬ List.replicate (n + 1) b <:+: l ++ [a]) ↔
      (∀ b, ¬ List.replicate (n + 1) b <:+: l) ∧ m < n := by
  have hsuffix : (∀ b, ¬ List.replicate (n + 1) b <:+ l ++ [a]) ↔ m < n := by
    simp only [replicate_suffix_iff, h, Option.some.injEq, Prod.mk.injEq]
    constructor
    · intro hall
      by_contra hge
      exact hall a ⟨m, by omega, rfl, rfl⟩
    · rintro hlt b ⟨m', hm', -, rfl⟩
      omega
  simp only [List.infix_concat_iff, not_or, forall_and, hsuffix, and_comm]

/-- A run that is too long is there at once. -/
theorem lt_of_forall_not_infix {l : List α} {a : α} {m n : ℕ} (h : lastRun l = some (a, m))
    (hall : ∀ b, ¬ List.replicate (n + 1) b <:+: l) : m < n := by
  by_contra hge
  exact hall a (replicate_suffix_iff.mpr ⟨m, by omega, h⟩).isInfix

end Sysbench
