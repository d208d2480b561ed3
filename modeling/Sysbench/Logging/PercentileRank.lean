import Mathlib.Algebra.Order.Floor.Semifield
import Mathlib.Data.Rat.Floor
import Sysbench.Logging.OperHandler

/-!
# Logging/PercentileRank — which bucket `sb_percentile_calculate` answers with

The percentile of a histogram lies in the *first* bucket up to which enough values were recorded.
The scan of `sb_percentile_calculate` takes bucket 0 before its loop and tests only behind the next
one: where bucket 0 alone would be enough, or nothing is needed at all, it answers with bucket 1.
Everywhere else it answers with the first bucket (`percentile_least_iff`).
-/

namespace Sysbench.Logging

/-! ## What is asked for -/

/-- The number of values to be reached: `percent` of `n`, rounded to the nearest number. -/
def targetRank (percent n : ℕ) : ℕ := ⌊(n * percent / 100 + 1 / 2 : ℚ)⌋₊

/-- How many values were recorded in the buckets `0..i`. -/
def recordedUpTo (bucket : U64 → ℕ) (recorded : List U64) (i : ℕ) : ℕ :=
  recorded.countP fun value => bucket value ≤ i

/-- A histogram of `size` buckets whose rank is computed exactly. -/
def exactScale (size : ℕ) (bucket : U64 → ℕ) (percent : ℕ) : Scale where
  size := size
  bucket := bucket
  rank total := BitVec.ofNat 64 (targetRank percent total.toNat)

/-- The histogram of some values, from its last reset. -/
def histogram (scale : Scale) (recorded : List U64) : Percentile :=
  recorded.foldl (sbPercentileUpdate scale) sbPercentileReset

/-- **The percentile is right**: the bucket is the first up to which the rank is reached. -/
def PercentileRight (size percent : ℕ) (bucket : U64 → ℕ) (recorded : List U64) : Prop :=
  ∃ i, sbPercentileCalculate (exactScale size bucket percent)
      (histogram (exactScale size bucket percent) recorded) = some i ∧
    IsLeast {i | targetRank percent recorded.length ≤ recordedUpTo bucket recorded i} i

theorem targetRank_eq (percent n : ℕ) : targetRank percent n = (n * percent + 50) / 100 := by
  have hdiv : (n * percent / 100 + 1 / 2 : ℚ) = ((n * percent + 50 : ℕ) : ℚ) / (100 : ℕ) := by
    push_cast
    ring
  rw [targetRank, hdiv, Nat.floor_div_eq_div]

theorem targetRank_le {percent : ℕ} (h : percent ≤ 100) (n : ℕ) : targetRank percent n ≤ n := by
  have hmul : n * percent ≤ n * 100 := Nat.mul_le_mul_left n h
  rw [targetRank_eq]
  omega

/-! ## The counters -/

variable {scale : Scale} {bucket : U64 → ℕ} {recorded : List U64}

theorem histogram_concat (recorded : List U64) (value : U64) :
    histogram scale (recorded ++ [value])
      = sbPercentileUpdate scale (histogram scale recorded) value :=
  List.foldl_concat ..

theorem histogram_total (recorded : List U64) :
    (histogram scale recorded).total = BitVec.ofNat 64 recorded.length := by
  induction recorded using List.reverseRecOn with
  | nil => rfl
  | append_singleton recorded value ih =>
    rw [histogram_concat, List.length_append, List.length_singleton, BitVec.ofNat_add, ← ih]
    rfl

theorem histogram_values (recorded : List U64) (b : ℕ) :
    (histogram scale recorded).values b
      = BitVec.ofNat 64 (recorded.countP fun value => scale.bucket value = b) := by
  induction recorded using List.reverseRecOn with
  | nil => rfl
  | append_singleton recorded value ih =>
    rw [histogram_concat, countP_concat, BitVec.ofNat_add, ← ih, sbPercentileUpdate]
    by_cases hb : scale.bucket value = b
    · simp [hb]
    · simp [Function.update_of_ne (Ne.symm hb), hb]

/-- No counter has wrapped. -/
theorem histogram_values_toNat (hlen : recorded.length < 2 ^ 64) (b : ℕ) :
    ((histogram scale recorded).values b).toNat
      = recorded.countP fun value => scale.bucket value = b := by
  rw [histogram_values, BitVec.toNat_ofNat, Nat.mod_eq_of_lt]
  exact List.countP_le_length.trans_lt hlen

theorem recordedUpTo_zero (recorded : List U64) :
    recordedUpTo bucket recorded 0 = recorded.countP fun value => bucket value = 0 := by
  simp only [recordedUpTo, Nat.le_zero]

theorem recordedUpTo_succ (bucket : U64 → ℕ) (recorded : List U64) (i : ℕ) :
    recordedUpTo bucket recorded (i + 1)
      = recordedUpTo bucket recorded i + recorded.countP fun value => bucket value = i + 1 := by
  induction recorded with
  | nil => rfl
  | cons value recorded ih =>
    simp only [recordedUpTo, List.countP_cons, decide_eq_true_eq] at ih ⊢
    rw [ih]
    split_ifs <;> omega

theorem recordedUpTo_le_length (bucket : U64 → ℕ) (recorded : List U64) (i : ℕ) :
    recordedUpTo bucket recorded i ≤ recorded.length :=
  List.countP_le_length

/-- All values are in the buckets of the histogram. -/
theorem recordedUpTo_last {size : ℕ} (hbucket : ∀ value ∈ recorded, bucket value < size) :
    recordedUpTo bucket recorded (size - 1) = recorded.length := by
  rw [recordedUpTo, List.countP_eq_length]
  intro value hvalue
  have := hbucket value hvalue
  simp only [decide_eq_true_eq]
  omega

/-! ## The scan -/

/-- **The scan from bucket `i`**, with the values of the buckets before it counted: it stops at the
first bucket from there on that reaches the rank, or behind the last. -/
theorem rankBucket_spec (scale : Scale) (hlen : recorded.length < 2 ^ 64) (nmax : U64) (fuel : ℕ)
    {i : ℕ} {ncur : U64} (hncur : ncur.toNat = recordedUpTo scale.bucket recorded i) :
    let r := rankBucket (histogram scale recorded).values nmax fuel (i + 1) ncur
    i < r ∧ (∀ k, i < k → k < r → recordedUpTo scale.bucket recorded k < nmax.toNat) ∧
      (r ≤ i + fuel → nmax.toNat ≤ recordedUpTo scale.bucket recorded r) := by
  induction fuel generalizing i ncur with
  | zero =>
    refine ⟨Nat.lt_succ_self i, fun k hk hlt => ?_, fun hle => ?_⟩
    · exact absurd hlt (not_lt.mpr hk)
    · exact absurd hle (Nat.not_succ_le_self i)
  | succ fuel ih =>
    have hnext : (ncur + (histogram scale recorded).values (i + 1)).toNat
        = recordedUpTo scale.bucket recorded (i + 1) := by
      have hsum := recordedUpTo_succ scale.bucket recorded i
      have hle := recordedUpTo_le_length scale.bucket recorded (i + 1)
      rw [BitVec.toNat_add, hncur, histogram_values_toNat hlen, ← hsum]
      exact Nat.mod_eq_of_lt (hle.trans_lt hlen)
    rw [rankBucket]
    split_ifs with hreached
    · have hreached := hnext ▸ BitVec.le_def.mp hreached
      refine ⟨Nat.lt_succ_self i, fun k hk hlt => ?_, fun _ => hreached⟩
      exact absurd hlt (not_lt.mpr hk)
    · have hshort := hnext ▸ not_le.mp (mt BitVec.le_def.mpr hreached)
      obtain ⟨hlow, hbefore, hat⟩ := ih hnext
      refine ⟨(Nat.lt_succ_self i).trans hlow, fun k hk hlt => ?_, fun hle => hat (by omega)⟩
      rcases (Nat.succ_le_iff.mpr hk).eq_or_lt with rfl | hk
      · exact hshort
      · exact hbefore k hk hlt

theorem exactScale_rank {size percent : ℕ} (hpercent : percent ≤ 100) (total : U64) :
    ((exactScale size bucket percent).rank total).toNat = targetRank percent total.toNat := by
  have hle := targetRank_le hpercent total.toNat
  have hlt := total.isLt
  rw [exactScale, BitVec.toNat_ofNat, Nat.mod_eq_of_lt (by omega)]

/-- The answer is the first bucket *from 1 on* up to which the rank is reached. -/
theorem sbPercentileCalculate_spec {size percent : ℕ} (hsize : 2 ≤ size) (hpercent : percent ≤ 100)
    (hbucket : ∀ value ∈ recorded, bucket value < size) (hne : recorded ≠ [])
    (hlen : recorded.length < 2 ^ 64) :
    ∃ r, sbPercentileCalculate (exactScale size bucket percent)
        (histogram (exactScale size bucket percent) recorded) = some r ∧ 0 < r ∧
      (∀ k, 0 < k → k < r →
        recordedUpTo bucket recorded k < targetRank percent recorded.length) ∧
      targetRank percent recorded.length ≤ recordedUpTo bucket recorded r := by
  set scale := exactScale size bucket percent
  have htotal : (histogram scale recorded).total.toNat = recorded.length := by
    rw [histogram_total, BitVec.toNat_ofNat, Nat.mod_eq_of_lt hlen]
  have hpos : (histogram scale recorded).total ≠ 0 := by
    intro hzero
    rw [hzero] at htotal
    exact hne (List.eq_nil_of_length_eq_zero htotal.symm)
  have hzero : ((histogram scale recorded).values 0).toNat = recordedUpTo bucket recorded 0 := by
    rw [histogram_values_toNat hlen, recordedUpTo_zero]
    rfl
  obtain ⟨hlow, hbefore, hat⟩ := rankBucket_spec scale hlen
    (scale.rank (histogram scale recorded).total) (size - 1) hzero
  rw [exactScale_rank hpercent, htotal] at hbefore hat
  refine ⟨_, if_neg hpos, hlow, hbefore, hat ?_⟩
  -- otherwise the scan has passed the last bucket, up to which everything is recorded
  by_contra hend
  have hlast : recordedUpTo bucket recorded (size - 1) < targetRank percent recorded.length :=
    hbefore (size - 1) (by omega) (by omega)
  rw [recordedUpTo_last hbucket] at hlast
  exact absurd (targetRank_le hpercent recorded.length) (not_le.mpr hlast)

/-- **The percentile is right exactly if bucket 0 alone does not reach the rank.** -/
theorem percentile_least_iff {size percent : ℕ} (hsize : 2 ≤ size) (hpercent : percent ≤ 100)
    (hbucket : ∀ value ∈ recorded, bucket value < size) (hne : recorded ≠ [])
    (hlen : recorded.length < 2 ^ 64) :
    PercentileRight size percent bucket recorded ↔
      recordedUpTo bucket recorded 0 < targetRank percent recorded.length := by
  obtain ⟨r, hcalc, hpos, hbefore, hat⟩ :=
    sbPercentileCalculate_spec hsize hpercent hbucket hne hlen
  constructor
  · rintro ⟨i, hi, -, hleast⟩
    obtain rfl := Option.some.inj (hcalc.symm.trans hi)
    by_contra hreached
    exact absurd (hleast (not_lt.mp hreached)) (not_le.mpr hpos)
  · intro hshort
    refine ⟨r, hcalc, hat, fun k hk => ?_⟩
    by_contra hlt
    rcases Nat.eq_zero_or_pos k with rfl | hkpos
    · exact absurd hk (not_le.mpr hshort)
    · exact absurd hk (not_le.mpr (hbefore k hkpos (not_le.mp hlt)))

/-- Values are their own buckets. -/
def ownBucket (value : U64) : ℕ := value.toNat

/-- Of three values in the buckets 0, 1 and 2, the median is that in bucket 1. -/
theorem percentile_least_median :
    recordedUpTo ownBucket [0, 1, 2] 0 < targetRank 50 3 ∧
      PercentileRight 3 50 ownBucket [0, 1, 2] := by
  have hrank : recordedUpTo ownBucket [0, 1, 2] 0 < targetRank 50 3 := by
    rw [targetRank_eq]
    decide
  have hbucket : ∀ value ∈ [(0 : U64), 1, 2], ownBucket value < 3 := by simp [ownBucket]
  exact ⟨hrank, (percentile_least_iff (by decide) (by decide) hbucket (List.cons_ne_nil _ _)
    (by norm_num)).mpr hrank⟩

/-- **A single value in bucket 0**: the answer is bucket 1, which holds nothing. -/
theorem percentile_notLeast :
    sbPercentileCalculate (exactScale 2 ownBucket 95)
        (histogram (exactScale 2 ownBucket 95) [0]) = some 1 ∧
      IsLeast {i | targetRank 95 1 ≤ recordedUpTo ownBucket [0] i} 0 ∧
      ¬ PercentileRight 2 95 ownBucket [0] := by
  have hrank : targetRank 95 1 = 1 := by rw [targetRank_eq]
  have hleast : IsLeast {i | targetRank 95 1 ≤ recordedUpTo ownBucket [0] i} 0 :=
    ⟨hrank.le, fun i _ => Nat.zero_le i⟩
  have hbucket : ∀ value ∈ [(0 : U64)], ownBucket value < 2 := by simp [ownBucket]
  obtain ⟨r, hcalc, hpos, hbefore, -⟩ := sbPercentileCalculate_spec (le_refl 2)
    (by decide : 95 ≤ 100) hbucket (List.cons_ne_nil _ _) (by norm_num)
  obtain rfl : r = 1 := by
    by_contra hne
    have hfirst : 1 < targetRank 95 1 := hbefore 1 one_pos (by omega)
    omega
  refine ⟨hcalc, hleast, ?_⟩
  rintro ⟨i, hi, hright⟩
  obtain rfl := Option.some.inj (hcalc.symm.trans hi)
  exact absurd (hright.unique hleast) one_ne_zero

end Sysbench.Logging
