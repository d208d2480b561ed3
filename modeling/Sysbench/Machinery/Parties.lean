import Mathlib.Algebra.BigOperators.Group.Finset.Basic
import Mathlib.Data.Fintype.BigOperators

/-!
# Machinery/Parties — how many parties are where

The parties of a protocol are a finite type; one moves at a time, and the number of those that are
in a given kind of place changes by the place it leaves and the place it reaches.
-/

namespace Sysbench

variable {τ β : Type*} [Fintype τ] [DecidableEq τ] {f : τ → β} {t : τ} {x : β}

/-- The parties whose place is of the kind `p`. -/
def partiesAt (p : β → Bool) (f : τ → β) : Finset τ := Finset.univ.filter fun t => p (f t)

omit [DecidableEq τ] in
@[simp] theorem mem_partiesAt {p : β → Bool} : t ∈ partiesAt p f ↔ p (f t) = true := by
  simp [partiesAt]

/-- **One party moves**: the count follows the place it leaves and the place it reaches. -/
theorem card_partiesAt_update (p : β → Bool) (f : τ → β) (t : τ) (x : β) :
    (partiesAt p (Function.update f t x)).card + (p (f t)).toNat
      = (partiesAt p f).card + (p x).toNat := by
  have hcount : ∀ g : τ → β, (partiesAt p g).card = (p (g t)).toNat
      + ∑ u ∈ Finset.univ.erase t, (p (g u)).toNat := by
    intro g
    rw [partiesAt, Finset.card_filter, ← Finset.add_sum_erase _ _ (Finset.mem_univ t)]
    simp only [Bool.toNat, Bool.cond_eq_ite]
  have hrest : ∑ u ∈ Finset.univ.erase t, (p (Function.update f t x u)).toNat
      = ∑ u ∈ Finset.univ.erase t, (p (f u)).toNat :=
    Finset.sum_congr rfl fun u hu => by rw [Function.update_of_ne (Finset.ne_of_mem_erase hu)]
  rw [hcount, hcount f, hrest, Function.update_self]
  omega

omit [DecidableEq τ] in
theorem card_partiesAt_pos {p : β → Bool} : 0 < (partiesAt p f).card ↔ ∃ t, p (f t) = true := by
  simp [Finset.card_pos, Finset.Nonempty]

omit [DecidableEq τ] in
/-- A party in a place that only one party is in is that one. -/
theorem eq_of_card_partiesAt_le_one {p : β → Bool} (hone : (partiesAt p f).card ≤ 1) {t u : τ}
    (ht : p (f t) = true) (hu : p (f u) = true) : t = u :=
  Finset.card_le_one.mp hone t (mem_partiesAt.mpr ht) u (mem_partiesAt.mpr hu)

end Sysbench
