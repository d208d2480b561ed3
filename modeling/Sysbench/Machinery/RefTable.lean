import Mathlib.Tactic

/-!
# Machinery/RefTable — references into a table, the free ones chained through their slots

A table keeps objects under numbers.  Slot 0 is the head of the free slots: each holds the number of
the next, as long as it is not in use.  A reference is the number of a slot, the first free one or
else one behind the last (`RefTable.ref`); giving it back puts it before the free ones
(`RefTable.unref`).

Who gives back slot 0, which is no reference, makes the table forget the free slots; but those that
are in use stay (`Keeps.unref_zero`).
-/

namespace Sysbench

/-- What a slot holds: an object, or a number. -/
inductive RefSlot (α : Type*)
  | object (a : α)
  | number (n : ℕ)

/-- The slots of a table. -/
abbrev RefTable (α : Type*) : Type _ := ℕ → Option (RefSlot α)

namespace RefTable

variable {α : Type*}

/-- The number in a slot; without one it is 0. -/
def link (t : RefTable α) (k : ℕ) : ℕ :=
  match t k with
  | some (.number n) => n
  | _ => 0

/-- Slot `n` is in use and the next is not, or the first is not. -/
def IsBorder (t : RefTable α) (n : ℕ) : Prop := (n = 0 ∨ (t n).isSome) ∧ t (n + 1) = none

instance (t : RefTable α) (n : ℕ) : Decidable (t.IsBorder n) :=
  decidable_of_iff ((n = 0 ∨ (t n).isSome) ∧ (t (n + 1)).isNone) (by simp [IsBorder])

/-- A reference to an object, and the table with it; `n` is a border. -/
def ref (t : RefTable α) (n : ℕ) (a : α) : ℕ × RefTable α :=
  if t.link 0 ≠ 0 then
    (t.link 0, Function.update (Function.update t 0 (t (t.link 0))) (t.link 0) (some (.object a)))
  else (n + 1, Function.update t (n + 1) (some (.object a)))

/-- The table after a slot is given back. -/
def unref (t : RefTable α) (k : ℕ) : RefTable α :=
  Function.update (Function.update t k (t 0)) 0 (some (.number k))

/-- The slots chained behind slot `k`. -/
def Chain (t : RefTable α) : ℕ → List ℕ → Prop
  | k, [] => t.link k = 0
  | k, r :: rs => r ≠ 0 ∧ t.link k = r ∧ t.Chain r rs

/-- **The references in use**: `held` is what they refer to. -/
structure Keeps (t : RefTable α) (held : ℕ → Option α) : Prop where
  chain : ∃ free, t.Chain 0 free ∧ free.Nodup ∧ ∀ k ∈ free, held k = none
  object : ∀ {k a}, held k = some a → k ≠ 0 ∧ t k = some (.object a)

section Rules

variable {t t' : RefTable α} {held : ℕ → Option α} {k n : ℕ} {a : α}

theorem link_congr (h : t' k = t k) : t'.link k = t.link k := by rw [link, link, h]

/-- A chain is decided by the slot it starts from and those in it. -/
theorem Chain.congr {rs : List ℕ} (hlink : t'.link n = t.link k) (hslots : ∀ r ∈ rs, t' r = t r)
    (h : t.Chain k rs) : t'.Chain n rs := by
  induction rs generalizing k n with
  | nil => exact hlink.trans h
  | cons r rs ih =>
    obtain ⟨hr, hk, hrest⟩ := h
    rw [List.forall_mem_cons] at hslots
    exact ⟨hr, hlink.trans hk, ih (link_congr hslots.1) hslots.2 hrest⟩

theorem Chain.ne_zero {rs : List ℕ} (h : t.Chain k rs) : ∀ r ∈ rs, r ≠ 0 := by
  induction rs generalizing k with
  | nil => exact fun _ hr => absurd hr List.not_mem_nil
  | cons r rs ih =>
    rintro r' (_ | ⟨_, hr'⟩)
    · exact h.1
    · exact ih h.2.2 r' hr'

/-- An empty table. -/
theorem keeps_empty : Keeps (fun _ => none : RefTable α) fun _ => none where
  chain := ⟨[], rfl, List.nodup_nil, fun _ h => absurd h List.not_mem_nil⟩
  object := fun h => nomatch h

/-- An object is stored in a slot, and what the others hold stays. -/
theorem Keeps.object_update (h : t.Keeps held) {r : ℕ} (hr : r ≠ 0)
    (hself : t' r = some (.object a)) (hslot : ∀ {j}, j ≠ r → j ≠ 0 → t' j = t j) {b : α}
    (hk : Function.update held r (some a) k = some b) : k ≠ 0 ∧ t' k = some (.object b) := by
  rcases eq_or_ne k r with rfl | hne
  · rw [Function.update_self] at hk
    obtain rfl := Option.some.inj hk
    exact ⟨hr, hself⟩
  · rw [Function.update_of_ne hne] at hk
    exact ⟨(h.object hk).1, (hslot hne (h.object hk).1).trans (h.object hk).2⟩

/-- **A new reference is one that is not in use**, and the table keeps it with the others. -/
theorem Keeps.ref (h : t.Keeps held) (hn : t.IsBorder n) (a : α) :
    held (t.ref n a).1 = none ∧ (t.ref n a).1 ≠ 0 ∧
      (t.ref n a).2.Keeps (Function.update held (t.ref n a).1 (some a)) := by
  obtain ⟨free, hchain, hnodup, hfree⟩ := h.chain
  cases free with
  | nil =>
    have hlink : t.link 0 = 0 := hchain
    have hnone : held (n + 1) = none := by
      by_contra hheld
      obtain ⟨b, hb⟩ := Option.ne_none_iff_exists'.mp hheld
      exact absurd (h.object hb).2 (by rw [hn.2]; exact Option.some_ne_none _ |>.symm)
    rw [RefTable.ref, if_neg (not_not.mpr hlink)]
    refine ⟨hnone, Nat.succ_ne_zero n, ⟨[], ?_, hnodup, fun _ h => absurd h List.not_mem_nil⟩,
      h.object_update (Nat.succ_ne_zero n) (Function.update_self ..)
        fun hne _ => Function.update_of_ne hne _ _⟩
    exact (link_congr (Function.update_of_ne (Nat.succ_ne_zero n).symm _ _)).trans hlink
  | cons r rest =>
    obtain ⟨hr, hlink, hrest⟩ := hchain
    obtain ⟨hnotMem, hnodup⟩ := List.nodup_cons.mp hnodup
    have hslot : ∀ {j : ℕ}, j ≠ r → j ≠ 0 →
        Function.update (Function.update t 0 (t r)) r (some (.object a)) j = t j := fun hj hj0 =>
      (Function.update_of_ne hj _ _).trans (Function.update_of_ne hj0 _ _)
    rw [RefTable.ref, if_pos (by rw [hlink]; exact hr), hlink]
    refine ⟨hfree r (List.mem_cons_self ..), hr, ⟨rest, ?_, hnodup, fun k hk => ?_⟩,
      h.object_update hr (Function.update_self ..) hslot⟩
    · refine hrest.congr ?_ fun k hk => hslot (ne_of_mem_of_not_mem hk hnotMem) (hrest.ne_zero k hk)
      dsimp only [link]
      rw [Function.update_of_ne hr.symm, Function.update_self]
    · rw [Function.update_of_ne (ne_of_mem_of_not_mem hk hnotMem)]
      exact hfree k (List.mem_cons_of_mem _ hk)

/-- **A reference that is given back** is free, and the others are kept. -/
theorem Keeps.unref (h : t.Keeps held) (hk : held k = some a) :
    (t.unref k).Keeps (Function.update held k none) := by
  obtain ⟨free, hchain, hnodup, hfree⟩ := h.chain
  have hk0 : k ≠ 0 := (h.object hk).1
  have hnotMem : k ∉ free := fun hmem => Option.some_ne_none a (hk.symm.trans (hfree k hmem))
  have hslot : ∀ {j : ℕ}, j ≠ k → j ≠ 0 → t.unref k j = t j := fun hj hj0 =>
    (Function.update_of_ne hj0 _ _).trans (Function.update_of_ne hj _ _)
  have hself : t.unref k k = t 0 :=
    (Function.update_of_ne hk0 _ _).trans (Function.update_self ..)
  refine ⟨⟨k :: free, ⟨hk0, ?_, ?_⟩, List.nodup_cons.mpr ⟨hnotMem, hnodup⟩, ?_⟩, ?_⟩
  · rw [link, RefTable.unref, Function.update_self]
  · exact hchain.congr (by rw [link, hself]; rfl) fun r hr =>
      hslot (ne_of_mem_of_not_mem hr hnotMem) (hchain.ne_zero r hr)
  · rintro r (_ | ⟨_, hr⟩)
    · exact Function.update_self ..
    · rw [Function.update_of_ne (ne_of_mem_of_not_mem hr hnotMem)]
      exact hfree r hr
  · intro j b hj
    rcases eq_or_ne j k with rfl | hne
    · rw [Function.update_self] at hj
      cases hj
    · rw [Function.update_of_ne hne] at hj
      exact ⟨(h.object hj).1, (hslot hne (h.object hj).1).trans (h.object hj).2⟩

/-- **To give back slot 0 is to forget the free slots.** -/
theorem Keeps.unref_zero (h : t.Keeps held) : (t.unref 0).Keeps held where
  chain := ⟨[], by rw [Chain, link, RefTable.unref, Function.update_self], List.nodup_nil,
    fun _ h => absurd h List.not_mem_nil⟩
  object := fun hk => by
    have hk0 := (h.object hk).1
    refine ⟨hk0, ?_⟩
    rw [RefTable.unref, Function.update_of_ne hk0, Function.update_of_ne hk0]
    exact (h.object hk).2

end Rules

end RefTable

end Sysbench
