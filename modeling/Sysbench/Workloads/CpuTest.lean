import Mathlib.Algebra.BigOperators.Intervals
import Mathlib.Data.Nat.Prime.Basic
import Mathlib.Data.Nat.Sqrt

/-!
# Workloads/CpuTest — the prime numbers of the `cpu` test

A request of the test divides each number below `cpu-max-prime` by all that could divide it, up to
its root.  The root is that of the C library, in `double`: it is correctly rounded, and below
`2 ^ 31` an integer is at most the rounded root exactly when it is at most the root.

What a request finds is the prime numbers from 3 on; what it costs is the same for every request,
and is settled by the least factors of the numbers.
-/

namespace Sysbench.Workloads

/-- The inner loop of `cpu_execute_request`: the value it leaves in `l`, and the divisions done. -/
def divideLoop (c : ℕ) : (fuel l : ℕ) → ℕ × ℕ
  | 0, l => (l, 0)
  | fuel + 1, l =>
    if l ≤ c.sqrt then
      if c % l = 0 then (l, 1)
      else ((divideLoop c fuel (l + 1)).1, (divideLoop c fuel (l + 1)).2 + 1)
    else (l, 0)

/-- The outer loop: the prime numbers it counts in `n`, and the divisions. -/
def primeLoop (maxPrime : ℕ) : (fuel c n work : ℕ) → ℕ × ℕ
  | 0, _, n, work => (n, work)
  | fuel + 1, c, n, work =>
    if c < maxPrime then
      let p := divideLoop c c 2
      primeLoop maxPrime fuel (c + 1) (if c.sqrt < p.1 then n + 1 else n) (work + p.2)
    else (n, work)

/-- `cpu_execute_request`: what it has counted at its end, and the divisions it did. -/
def cpuExecuteRequest (maxPrime : ℕ) : ℕ × ℕ := primeLoop maxPrime maxPrime 3 0 0

/-- **The inner loop ends at the least factor, or past the root.** -/
theorem divideLoop_eq {c fuel l : ℕ} (hl : 2 ≤ l) (hfac : l ≤ c.minFac)
    (hroot : l ≤ c.sqrt + 1) (hfuel : c.sqrt + 1 < l + fuel) :
    divideLoop c fuel l = (min c.minFac (c.sqrt + 1), min c.minFac c.sqrt + 1 - l) := by
  induction fuel generalizing l with
  | zero => omega
  | succ fuel ih =>
    rw [divideLoop]
    split_ifs with hle hdvd
    · -- `l` divides, and nothing below it does
      have hmin : c.minFac ≤ l := Nat.minFac_le_of_dvd hl (Nat.dvd_of_mod_eq_zero hdvd)
      obtain rfl : l = c.minFac := le_antisymm hfac hmin
      rw [min_eq_left hroot, min_eq_left hle]
      simp
    · have hne : c.minFac ≠ l := fun h => hdvd (Nat.mod_eq_zero_of_dvd (h ▸ Nat.minFac_dvd c))
      rw [ih (by omega) (by omega) (by omega) (by omega)]
      congr 1
      have : l + 1 ≤ min c.minFac c.sqrt + 1 := by omega
      omega
    · have hl : l = c.sqrt + 1 := by omega
      have hmin : min c.minFac (c.sqrt + 1) = l := by omega
      rw [hmin]
      congr 1
      omega

/-- **A number is prime exactly when the inner loop ends past its root.** -/
theorem sqrt_lt_divideLoop_iff {c : ℕ} (hc : 2 ≤ c) :
    c.sqrt < (divideLoop c c 2).1 ↔ c.Prime := by
  have hsqrt : c.sqrt < c := Nat.sqrt_lt_self (by omega)
  have hpos : 0 < c.sqrt := Nat.sqrt_pos.mpr (by omega)
  rw [divideLoop_eq le_rfl (Nat.minFac_prime (by omega)).two_le (by omega) (by omega)]
  constructor
  · intro hlt
    by_contra hp
    have hsq := Nat.minFac_sq_le_self (by omega) hp
    have hle : c.minFac ≤ c.sqrt := Nat.le_sqrt.mpr (by rwa [← sq])
    omega
  · intro hp
    rw [hp.minFac_eq]
    omega

/-- The outer loop adds up what the inner one found. -/
theorem primeLoop_eq (maxPrime : ℕ) {fuel c n work : ℕ} (hc : 2 ≤ c) (hfuel : maxPrime ≤ c + fuel) :
    primeLoop maxPrime fuel c n work
      = (n + ((Finset.Ico c maxPrime).filter Nat.Prime).card,
        work + ∑ k ∈ Finset.Ico c maxPrime, (min k.minFac k.sqrt - 1)) := by
  induction fuel generalizing c n work with
  | zero => simp [primeLoop, Finset.Ico_eq_empty_of_le (show maxPrime ≤ c by omega)]
  | succ fuel ih =>
    rw [primeLoop]
    split_ifs with hlt
    · have hwork : (divideLoop c c 2).2 = min c.minFac c.sqrt - 1 := by
        have hsqrt : c.sqrt < c := Nat.sqrt_lt_self (by omega)
        have hpos : 0 < c.sqrt := Nat.sqrt_pos.mpr (by omega)
        rw [divideLoop_eq le_rfl (Nat.minFac_prime (by omega)).two_le (by omega) (by omega)]
        rfl
      dsimp only
      rw [ih (by omega) (by omega), hwork, Finset.sum_eq_sum_Ico_succ_bot hlt,
        ← Finset.insert_Ico_add_one_left_eq_Ico hlt, Finset.filter_insert]
      simp only [sqrt_lt_divideLoop_iff hc]
      split_ifs with hp
      · rw [Finset.card_insert_of_notMem (by simp)]
        congr 1 <;> omega
      · congr 1
        omega
    · simp [Finset.Ico_eq_empty_of_le (not_lt.mp hlt)]

/-- **A request counts the prime numbers from 3 to the limit**, and does for each number as many
divisions as its least factor or its root, whichever is less, is above 1. -/
theorem cpuExecuteRequest_eq (maxPrime : ℕ) :
    cpuExecuteRequest maxPrime
      = (((Finset.Ico 3 maxPrime).filter Nat.Prime).card,
        ∑ c ∈ Finset.Ico 3 maxPrime, (min c.minFac c.sqrt - 1)) := by
  rw [cpuExecuteRequest, primeLoop_eq maxPrime (by decide) (by omega)]
  simp

end Sysbench.Workloads
