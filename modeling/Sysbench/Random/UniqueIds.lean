import Mathlib.NumberTheory.LucasLehmer
import Sysbench.Machinery.MachineInt
import Sysbench.Machinery.Traces

/-!
# Random/UniqueIds — the ids of `sb_rand_uniq`

`rnd_seed` goes up by a large prime with each call, under `rnd_mutex`, and an id is its remainder by
the length of the range.  As long as the 64-bit seed has not come round, the seeds are the multiples
of the prime, and any `n` consecutive multiples of it have different remainders by `n`
(`perm_multiples`): so `n` calls in a row return each id of a range of `n` once.
-/

namespace Sysbench.Random

/-- `LARGE_PRIME`. -/
def largePrime : ℕ := 2147483647

/-- `sb_rand_uniq`: the id and the next seed.  The length of the range is an `int` converted to
`unsigned long long`; a remainder by zero is `none`. -/
def sbRandUniq (seed : ℕ) (a b : ℤ) : Option (ℤ × ℕ) :=
  let n := toU64 (toI32 (b - a + 1))
  if n = 0 then none
  else
    let res := toI32 (toU32 (seed % n : ℕ))
    some (toI32 (res + a), toU64 (seed + largePrime : ℕ))

/-- A call, and the thread that makes it. -/
structure UniqCall where
  thread : ℕ
  a : ℤ
  b : ℤ

/-- A call answers with the id it returns. -/
def uniqStep (seed : ℕ) (c : UniqCall) : Option ((UniqCall × ℤ) × ℕ) :=
  (sbRandUniq seed c.a c.b).map fun p => ((c, p.1), p.2)

/-! ## Multiples of a number -/

/-- **Consecutive multiples of a number prime to `n`** have the remainders by `n`, each once. -/
theorem perm_multiples {n p : ℕ} (hcop : Nat.Coprime n p) (k : ℕ) :
    ((List.range n).map fun i => (k + i) * p % n).Perm (List.range n) := by
  have hnodup : ((List.range n).map fun i => (k + i) * p % n).Nodup := by
    refine List.Nodup.map_on (fun i hi j hj heq => ?_) List.nodup_range
    have hmod : (k + i) ≡ (k + j) [MOD n] := Nat.ModEq.cancel_right_of_coprime hcop heq
    have hij : i ≡ j [MOD n] := Nat.ModEq.add_left_cancel' k hmod
    rw [List.mem_range] at hi hj
    exact hij.eq_of_lt_of_lt hi hj
  have hsub : ((List.range n).map fun i => (k + i) * p % n) ⊆ List.range n := by
    intro r hr
    obtain ⟨i, hi, rfl⟩ := List.mem_map.mp hr
    rw [List.mem_range] at hi ⊢
    exact Nat.mod_lt _ (by omega)
  exact (List.subperm_of_subset hnodup hsub).perm_of_length_le (by simp)

theorem prime_largePrime : Nat.Prime largePrime :=
  lucas_lehmer_sufficiency 31 (by norm_num) (by norm_num)

theorem coprime_largePrime {n : ℕ} (hpos : 0 < n) (hlt : n < 2 ^ 31 - 1) :
    Nat.Coprime n largePrime :=
  ((prime_largePrime.coprime_iff_not_dvd).mpr fun h =>
    absurd (Nat.le_of_dvd hpos h) (by simp only [largePrime]; omega)).symm

/-! ## The seeds of a run -/

/-- A call with a range that fits. -/
theorem sbRandUniq_eq {a b : ℤ} {n : ℕ} (ha : -2 ^ 31 ≤ a) (hb : b < 2 ^ 31) (hab : a ≤ b)
    (hn : (n : ℤ) = b - a + 1) (hlt : n < 2 ^ 31 - 1) (seed : ℕ) :
    sbRandUniq seed a b = some (a + (seed % n : ℕ), toU64 (seed + largePrime : ℕ)) := by
  have hlen : toU64 (toI32 (b - a + 1)) = n := by
    rw [← hn, toI32_of_lt (by omega) (by omega), toU64_of_lt (by omega)]
  have hmod : seed % n < n := Nat.mod_lt _ (by omega)
  have hres : toI32 (toU32 (seed % n : ℕ)) = (seed % n : ℕ) := by
    rw [toU32_of_lt (by omega), toI32_of_lt (by omega) (by omega)]
  simp only [sbRandUniq, hlen, hres]
  rw [if_neg (by omega), toI32_of_lt (by omega) (by omega), add_comm]

/-- **The seeds of a run**: that of the `k`-th call, counted from zero, is the `k + 1`-st multiple
of the prime, as far as it fits. -/
structure SeedInv (outs : List (UniqCall × ℤ)) (seed : ℕ) : Prop where
  seed_eq : seed = toU64 ((outs.length + 1) * largePrime : ℕ)
  ids : ∀ k o, outs[k]? = some o →
    ∃ seed', sbRandUniq (toU64 ((k + 1) * largePrime : ℕ)) o.1.a o.1.b = some (o.2, seed')

theorem seedInv_of_trace {outs : List (UniqCall × ℤ)} {seed : ℕ}
    (h : Trace uniqStep largePrime outs seed) : SeedInv outs seed := by
  refine h.invariant SeedInv ⟨by decide, by simp⟩ ?_
  rintro outs seed c o seed' ⟨rfl, hids⟩ hstep
  obtain ⟨p, hp, heq⟩ := Option.map_eq_some_iff.mp hstep
  obtain ⟨rfl, rfl⟩ := Prod.mk.inj heq
  refine ⟨?_, fun k o hk => ?_⟩
  · have hnext : p.2 = toU64 (toU64 ((outs.length + 1) * largePrime : ℕ) + largePrime : ℕ) := by
      unfold sbRandUniq at hp
      dsimp only at hp
      split_ifs at hp
      exact (congrArg Prod.snd (Option.some.inj hp)).symm
    rw [hnext, List.length_append, List.length_singleton, Nat.succ_mul (outs.length + 1)]
    unfold toU64
    omega
  · rw [List.getElem?_append] at hk
    split_ifs at hk with hlt
    · exact hids k o hk
    · obtain ⟨hzero, rfl⟩ : k - outs.length = 0 ∧ (c, p.1) = o := by
        simpa [List.getElem?_singleton] using hk
      obtain rfl : k = outs.length := by omega
      exact ⟨p.2, hp⟩

/-- The ids of a range. -/
def idsFrom (a : ℤ) (n : ℕ) : List ℤ := (List.range n).map fun k : ℕ => a + (k : ℤ)

/-- **The ids are unique.**  A call on a range of fewer than `2 ^ 31 - 1` ids returns, and any `n`
consecutive calls on a range of `n` ids, among the first `2 ^ 33` of a run and made by any threads,
return every id of it once. -/
theorem sbRandUniq_perm (a b : ℤ) (ha : -2 ^ 31 ≤ a) (hb : b < 2 ^ 31) (hab : a ≤ b) (n : ℕ)
    (hn : (n : ℤ) = b - a + 1) (hlt : n < 2 ^ 31 - 1) :
    (∀ seed, (sbRandUniq seed a b).isSome) ∧
    ∀ outs seed, Trace uniqStep largePrime outs seed → outs.length ≤ 2 ^ 33 →
      ∀ before window after, outs = before ++ window ++ after → window.length = n →
        (∀ o ∈ window, o.1.a = a ∧ o.1.b = b) → (window.map Prod.snd).Perm (idsFrom a n) := by
  have hcall := fun seed => sbRandUniq_eq ha hb hab hn hlt seed
  refine ⟨fun seed => by rw [hcall]; rfl, ?_⟩
  rintro outs seed htrace hlen before window after rfl hwindow hrange
  have hids := (seedInv_of_trace htrace).ids
  have hmap : window.map Prod.snd
      = ((List.range n).map fun i => (before.length + 1 + i) * largePrime % n).map
          fun k : ℕ => a + (k : ℤ) := by
    refine List.ext_getElem (by simp [hwindow]) fun i hi _ => ?_
    rw [List.length_map] at hi
    obtain ⟨hoa, hob⟩ := hrange _ (List.getElem_mem hi)
    have hget : (before ++ window ++ after)[before.length + i]? = some window[i] := by
      rw [List.append_assoc, List.getElem?_append_right (Nat.le_add_right _ _),
        Nat.add_sub_cancel_left, List.getElem?_append_left hi, List.getElem?_eq_getElem hi]
    obtain ⟨seed', hid⟩ := hids _ _ hget
    have hfits : (before.length + i + 1) * largePrime < 2 ^ 64 := by
      simp only [List.length_append] at hlen
      simp only [largePrime]
      omega
    rw [hoa, hob, hcall, toU64_of_lt hfits] at hid
    obtain ⟨hval, -⟩ := Prod.mk.inj (Option.some.inj hid)
    simp only [List.getElem_map, List.getElem_range]
    rw [← hval, Nat.add_right_comm before.length 1 i]
  rw [hmap, idsFrom]
  exact (perm_multiples (coprime_largePrime (by omega) hlt) _).map _

/-- Two threads draw the ids from 5 to 7, after one has drawn an id of another range. -/
theorem sbRandUniq_perm_three : ∃ seed,
    Trace uniqStep largePrime
      [(⟨0, 1, 10⟩, 8), (⟨1, 5, 7⟩, 7), (⟨0, 5, 7⟩, 5), (⟨1, 5, 7⟩, 6)] seed ∧
      [7, 5, 6].Perm (idsFrom 5 3) := by
  have h₀ : Trace uniqStep largePrime [] largePrime := .nil
  have h₁ := h₀.snoc (i := ⟨0, 1, 10⟩) rfl
  have h₂ := h₁.snoc (i := ⟨1, 5, 7⟩) rfl
  have h₃ := h₂.snoc (i := ⟨0, 5, 7⟩) rfl
  have h₄ := h₃.snoc (i := ⟨1, 5, 7⟩) rfl
  exact ⟨_, h₄, (sbRandUniq_perm 5 7 (by norm_num) (by norm_num) (by norm_num) 3 (by norm_num)
    (by norm_num)).2 _ _ h₄ (by decide) [(⟨0, 1, 10⟩, 8)]
    [(⟨1, 5, 7⟩, 7), (⟨0, 5, 7⟩, 5), (⟨1, 5, 7⟩, 6)] [] rfl rfl (by simp)⟩

end Sysbench.Random
