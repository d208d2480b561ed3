import Mathlib.Data.List.Pairwise
import Mathlib.Data.List.Sort

/-!
# Machinery/Qsort — sorting by a comparison that need not be an order

`qsort` gets its order as a function that returns an `int`.  It is promised to sort only if the
answers are **consistent** on the elements at hand; otherwise it may leave them in any order.  A
program sorts *whatever qsort it is linked with* precisely when every function that keeps this
promise sorts.
-/

namespace Sysbench

variable {α : Type}

/-- On the elements of `xs`, the answers of `cmp` are those of an order. -/
structure ConsistentOn (cmp : α → α → ℤ) (xs : List α) : Prop where
  flip : ∀ a ∈ xs, ∀ b ∈ xs, cmp a b ≤ 0 ↔ 0 ≤ cmp b a
  trans : ∀ a ∈ xs, ∀ b ∈ xs, ∀ c ∈ xs, cmp a b ≤ 0 → cmp b c ≤ 0 → cmp a c ≤ 0

/-- **A qsort**: the elements are put in some order, the right one if there is one. -/
structure Qsort (α : Type) where
  sort : (α → α → ℤ) → List α → List α
  perm : ∀ cmp xs, (sort cmp xs).Perm xs
  sorts : ∀ cmp xs, ConsistentOn cmp xs → (sort cmp xs).Pairwise fun a b => cmp a b ≤ 0

theorem Qsort.mem_sort {q : Qsort α} {cmp : α → α → ℤ} {xs : List α} {a : α} :
    a ∈ q.sort cmp xs ↔ a ∈ xs :=
  (q.perm cmp xs).mem_iff

theorem ConsistentOn.total {cmp : α → α → ℤ} {xs : List α} (h : ConsistentOn cmp xs) {a b : α}
    (ha : a ∈ xs) (hb : b ∈ xs) : cmp a b ≤ 0 ∨ cmp b a ≤ 0 := by
  rcases le_total (cmp a b) 0 with hle | hge
  · exact .inl hle
  · exact .inr ((h.flip b hb a ha).mpr hge)

/-- Where the answers are consistent, the elements can be sorted. -/
theorem ConsistentOn.exists_sorted {cmp : α → α → ℤ} {xs : List α} (h : ConsistentOn cmp xs) :
    ∃ ys : List α, ys.Perm xs ∧ ys.Pairwise fun a b => cmp a b ≤ 0 := by
  let r : {a // a ∈ xs} → {a // a ∈ xs} → Prop := fun a b => cmp a b ≤ 0
  have : DecidableRel r := fun a b => Int.decLe _ _
  have : Std.Total r := ⟨fun a b => h.total a.2 b.2⟩
  have : IsTrans _ r := ⟨fun a b c => h.trans a a.2 b b.2 c c.2⟩
  refine ⟨(xs.attach.insertionSort r).map Subtype.val, ?_, ?_⟩
  · have hperm := (List.perm_insertionSort r xs.attach).map Subtype.val
    rwa [List.attach_map_subtype_val] at hperm
  · exact List.pairwise_map.mpr (List.pairwise_insertionSort r xs.attach)

open Classical in
/-- A qsort that puts elements it need not sort in a given order. -/
noncomputable def Qsort.orElse (other : List α → List α) (hother : ∀ xs, (other xs).Perm xs) :
    Qsort α where
  sort cmp xs := if h : ConsistentOn cmp xs then h.exists_sorted.choose else other xs
  perm cmp xs := by
    split_ifs with h
    · exact h.exists_sorted.choose_spec.1
    · exact hother xs
  sorts cmp xs h := by
    rw [dif_pos h]
    exact h.exists_sorted.choose_spec.2

theorem Qsort.orElse_of_not {other : List α → List α} {hother : ∀ xs, (other xs).Perm xs}
    {cmp : α → α → ℤ} {xs : List α} (h : ¬ ConsistentOn cmp xs) :
    (Qsort.orElse other hother).sort cmp xs = other xs :=
  dif_neg h

/-- Of two elements in a list, one comes before the other. -/
theorem rel_or_rel_of_pairwise {R : α → α → Prop} {xs : List α} (h : xs.Pairwise R) {a b : α}
    (ha : a ∈ xs) (hb : b ∈ xs) (hne : a ≠ b) : R a b ∨ R b a := by
  let S : α → α → Prop := fun a b => R a b ∨ R b a
  have : Std.Symm S := ⟨fun _ _ => Or.symm⟩
  have hS : xs.Pairwise S := h.imp Or.inl
  exact hS.forall ha hb hne

end Sysbench
