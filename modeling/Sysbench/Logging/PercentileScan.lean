import Sysbench.Logging.PercentileRank

/-!
# Logging/PercentileScan — the scan of the histogram stays inside it

The loop of `sb_percentile_calculate` has a bound of its own, but the value it returns is that of a
bucket only if it leaves through its `break`.  It does: the counters of the buckets add up to
`total` after any updates and resets, the rank to be reached is never above `total`, and so the last
bucket reaches it at the latest.  All this is arithmetic of `unsigned long long`, so it holds
however often the counters wrap.
-/

namespace Sysbench.Logging

/-! ## The operations on a histogram -/

/-- A call on a histogram. -/
inductive HistogramOp
  | update (value : U64)
  | calculate (percent : ℕ)
  | reset
  deriving DecidableEq

variable {scale : Scale}

/-- The histogram after a call; `sb_percentile_calculate` works on a copy. -/
def histogramOp (scale : Scale) (p : Percentile) : HistogramOp → Percentile
  | .update value => sbPercentileUpdate scale p value
  | .calculate _ => p
  | .reset => sbPercentileReset

/-- The histogram after some calls; `sb_percentile_init` leaves it as a reset does. -/
def afterOps (scale : Scale) (ops : List HistogramOp) : Percentile :=
  ops.foldl (histogramOp scale) sbPercentileReset

/-- One more call, for the values recorded since the last reset. -/
def recordOp (recorded : List U64) : HistogramOp → List U64
  | .update value => recorded ++ [value]
  | .calculate _ => recorded
  | .reset => []

/-- The values recorded since the last reset. -/
def recordedSince (ops : List HistogramOp) : List U64 := ops.foldl recordOp []

theorem afterOps_concat (ops : List HistogramOp) (op : HistogramOp) :
    afterOps scale (ops ++ [op]) = histogramOp scale (afterOps scale ops) op :=
  List.foldl_concat ..

theorem recordedSince_concat (ops : List HistogramOp) (op : HistogramOp) :
    recordedSince (ops ++ [op]) = recordOp (recordedSince ops) op :=
  List.foldl_concat ..

/-- **Every histogram that is reached is that of the values since the last reset.** -/
theorem afterOps_eq (ops : List HistogramOp) :
    afterOps scale ops = histogram scale (recordedSince ops) := by
  induction ops using List.reverseRecOn with
  | nil => rfl
  | append_singleton ops op ih =>
    rw [afterOps_concat, ih, recordedSince_concat]
    cases op with
    | update value => exact (histogram_concat _ value).symm
    | calculate percent => rfl
    | reset => rfl

theorem mem_of_mem_recordedSince {ops : List HistogramOp} {value : U64}
    (h : value ∈ recordedSince ops) : .update value ∈ ops := by
  induction ops using List.reverseRecOn with
  | nil => exact absurd h List.not_mem_nil
  | append_singleton ops op ih =>
    rw [recordedSince_concat] at h
    cases op with
    | update value' =>
      rcases List.mem_append.mp h with h | h
      · exact List.mem_append_left _ (ih h)
      · rw [List.mem_singleton.mp h]
        exact List.mem_append_right _ (List.mem_singleton_self _)
    | calculate percent => exact List.mem_append_left _ (ih h)
    | reset => exact absurd h List.not_mem_nil

/-! ## The counters add up -/

/-- The counters add up to `total`. -/
def Balanced (scale : Scale) (p : Percentile) : Prop :=
  ∑ i ∈ Finset.range scale.size, p.values i = p.total

theorem balanced_sbPercentileReset : Balanced scale sbPercentileReset := Finset.sum_const_zero

theorem Balanced.sbPercentileUpdate {p : Percentile} (h : Balanced scale p) {value : U64}
    (hvalue : scale.bucket value < scale.size) :
    Balanced scale (sbPercentileUpdate scale p value) := by
  have hsum := sum_update_of_eq_add id (f := p.values) hvalue
    (show id (p.values (scale.bucket value) + 1) = id (p.values (scale.bucket value)) + 1 from rfl)
  exact hsum.trans (congrArg (· + 1) h)

/-- A call on a histogram keeps the balance. -/
theorem Balanced.histogramOp {p : Percentile} (h : Balanced scale p) {op : HistogramOp}
    (hop : ∀ value, op = .update value → scale.bucket value < scale.size) :
    Balanced scale (histogramOp scale p op) := by
  cases op with
  | update value => exact h.sbPercentileUpdate (hop value rfl)
  | calculate percent => exact h
  | reset => exact balanced_sbPercentileReset

/-- **In every histogram that is reached the counters add up to `total`.** -/
theorem balanced_afterOps {ops : List HistogramOp}
    (hops : ∀ value, .update value ∈ ops → scale.bucket value < scale.size) :
    Balanced scale (afterOps scale ops) := by
  induction ops using List.reverseRecOn with
  | nil => exact balanced_sbPercentileReset
  | append_singleton ops op ih =>
    rw [afterOps_concat]
    refine (ih fun value hvalue => hops value (List.mem_append_left _ hvalue)).histogramOp ?_
    rintro value rfl
    exact hops value (List.mem_append_right _ (List.mem_singleton_self _))

/-- How many values are in the buckets `0..i`, bucket by bucket. -/
theorem sum_countP_bucket (bucket : U64 → ℕ) (recorded : List U64) (i : ℕ) :
    ∑ b ∈ Finset.range (i + 1), recorded.countP (fun value => bucket value = b)
      = recordedUpTo bucket recorded i := by
  induction i with
  | zero => rw [Finset.sum_range_one, recordedUpTo_zero]
  | succ i ih => rw [Finset.sum_range_succ, ih, recordedUpTo_succ]

/-- Before a counter can wrap, they add up as numbers. -/
theorem sum_toNat_afterOps {ops : List HistogramOp} (hsize : 2 ≤ scale.size)
    (hops : ∀ value, .update value ∈ ops → scale.bucket value < scale.size)
    (hlen : (recordedSince ops).length < 2 ^ 64) :
    ∑ i ∈ Finset.range scale.size, ((afterOps scale ops).values i).toNat
      = (afterOps scale ops).total.toNat := by
  have hbucket : ∀ value ∈ recordedSince ops, scale.bucket value < scale.size :=
    fun value hvalue => hops value (mem_of_mem_recordedSince hvalue)
  have hlast : scale.size = scale.size - 1 + 1 := by omega
  rw [afterOps_eq, histogram_total, BitVec.toNat_ofNat, Nat.mod_eq_of_lt hlen,
    ← recordedUpTo_last hbucket, ← sum_countP_bucket, ← hlast]
  exact Finset.sum_congr rfl fun b _ => histogram_values_toNat hlen b

/-! ## The scan -/

/-- The loop of `sb_percentile_calculate`, with how it ends: by its `break` at an index, or because
the index has reached the size. -/
def scanBreak (values : ℕ → U64) (nmax : U64) : (fuel i : ℕ) → (ncur : U64) → Option ℕ
  | 0, _, _ => none
  | fuel + 1, i, ncur =>
    if nmax ≤ ncur + values i then some i
    else scanBreak values nmax fuel (i + 1) (ncur + values i)

/-- The index the loop leaves behind. -/
theorem rankBucket_eq_scanBreak (values : ℕ → U64) (nmax : U64) (fuel i : ℕ) (ncur : U64) :
    rankBucket values nmax fuel i ncur
      = (scanBreak values nmax fuel i ncur).getD (i + fuel) := by
  induction fuel generalizing i ncur with
  | zero => rfl
  | succ fuel ih =>
    rw [rankBucket, scanBreak]
    split_ifs with hreached
    · rfl
    · rw [ih, Nat.add_right_comm, Nat.add_assoc]

variable {values : ℕ → U64} {nmax : U64} {fuel i r : ℕ}

/-- The indices from `i` on, of the next `fuel`, up to which the rank is reached. -/
def reaching (values : ℕ → U64) (nmax : U64) (fuel i : ℕ) : Set ℕ :=
  {k | i ≤ k ∧ k < i + fuel ∧ nmax ≤ ∑ j ∈ Finset.range (k + 1), values j}

/-- The scan from `i` on, with the buckets before it counted, breaks at the first index up to which
the rank is reached. -/
theorem scanBreak_eq_some (hreached : (reaching values nmax fuel i).Nonempty) :
    ∃ r, scanBreak values nmax fuel i (∑ j ∈ Finset.range i, values j) = some r ∧
      IsLeast (reaching values nmax fuel i) r := by
  induction fuel generalizing i with
  | zero =>
    obtain ⟨k, hk, hlt, -⟩ := hreached
    exact absurd hlt (not_lt.mpr hk)
  | succ fuel ih =>
    rw [scanBreak, ← Finset.sum_range_succ]
    split_ifs with hnow
    · exact ⟨i, rfl, ⟨le_rfl, by omega, hnow⟩, fun k hk => hk.1⟩
    · -- nothing at `i`: the same indices are left
      have hsame : reaching values nmax (fuel + 1) i = reaching values nmax fuel (i + 1) := by
        ext k
        refine ⟨fun ⟨hk, hlt, hk'⟩ => ⟨?_, by omega, hk'⟩,
          fun ⟨hk, hlt, hk'⟩ => ⟨by omega, by omega, hk'⟩⟩
        rcases hk.eq_or_lt with rfl | hk
        · exact absurd hk' hnow
        · exact hk
      rw [hsame] at hreached ⊢
      exact ih hreached

/-- The scan that `sb_percentile_calculate` makes at a rank. -/
def scanAt (scale : Scale) (p : Percentile) (percent : ℕ) : Option ℕ :=
  scanBreak p.values ((exactScale scale.size scale.bucket percent).rank p.total) (scale.size - 1) 1
    (p.values 0)

/-- **The last bucket reaches the rank.** -/
theorem last_mem_reaching {p : Percentile} (h : Balanced scale p) (hsize : 2 ≤ scale.size)
    {percent : ℕ} (hpercent : percent ≤ 100) :
    scale.size - 1 ∈ reaching p.values
      ((exactScale scale.size scale.bucket percent).rank p.total) (scale.size - 1) 1 := by
  refine ⟨by omega, by omega, ?_⟩
  rw [show scale.size - 1 + 1 = scale.size by omega, h, BitVec.le_def, exactScale_rank hpercent]
  exact targetRank_le hpercent _

/-- On a histogram whose counters add up the scan breaks inside it, at the first index from 1 on up
to which the rank is reached. -/
theorem scanAt_eq_some {p : Percentile} (h : Balanced scale p) (hsize : 2 ≤ scale.size)
    {percent : ℕ} (hpercent : percent ≤ 100) :
    ∃ r, scanAt scale p percent = some r ∧ IsLeast (reaching p.values
      ((exactScale scale.size scale.bucket percent).rank p.total) (scale.size - 1) 1) r := by
  have hscan := scanBreak_eq_some ⟨_, last_mem_reaching h hsize hpercent⟩
  rw [Finset.sum_range_one] at hscan
  exact hscan

/-- What is returned is the index of the break. -/
theorem sbPercentileCalculate_of_scanAt {p : Percentile} (hpos : p.total ≠ 0) {percent : ℕ}
    (h : scanAt scale p percent = some r) :
    sbPercentileCalculate (exactScale scale.size scale.bucket percent) p = some r := by
  rw [sbPercentileCalculate, if_neg hpos, rankBucket_eq_scanBreak]
  exact congrArg some (congrArg (Option.getD · _) h)

theorem targetRank_mono {percent percent' : ℕ} (h : percent ≤ percent') (n : ℕ) :
    targetRank percent n ≤ targetRank percent' n := by
  rw [targetRank_eq, targetRank_eq]
  gcongr

/-- A higher rank is reached no earlier. -/
theorem reaching_anti {nmax' : U64} (h : nmax ≤ nmax') :
    reaching values nmax' fuel i ⊆ reaching values nmax fuel i :=
  fun _ ⟨hk, hlt, hreached⟩ =>
    ⟨hk, hlt, BitVec.le_def.mpr ((BitVec.le_def.mp h).trans (BitVec.le_def.mp hreached))⟩

/-- **The scan stays inside the histogram**: after any updates, calculations and resets the counters
add up to `total`, and then the scan at any rank breaks at an index between 1 and the last, which is
what is returned and grows with the rank. -/
theorem percentileScan_inside (hsize : 2 ≤ scale.size) {ops : List HistogramOp}
    (hops : ∀ value, .update value ∈ ops → scale.bucket value < scale.size) :
    (Balanced scale (afterOps scale ops) ∧
      ((recordedSince ops).length < 2 ^ 64 →
        ∑ i ∈ Finset.range scale.size, ((afterOps scale ops).values i).toNat
          = (afterOps scale ops).total.toNat)) ∧
    ((afterOps scale ops).total ≠ 0 →
      ∃ index : ℕ → ℕ,
        (∀ percent ∈ Set.Icc 1 100,
          scanAt scale (afterOps scale ops) percent = some (index percent) ∧
          sbPercentileCalculate (exactScale scale.size scale.bucket percent) (afterOps scale ops)
            = some (index percent) ∧
          1 ≤ index percent ∧ index percent ≤ scale.size - 1) ∧
        MonotoneOn index (Set.Icc 1 100)) := by
  have hbalanced := balanced_afterOps hops
  set p := afterOps scale ops
  refine ⟨⟨hbalanced, sum_toNat_afterOps hsize hops⟩, fun hpos => ?_⟩
  have hscans := fun percent (hpercent : percent ∈ Set.Icc 1 100) =>
    scanAt_eq_some hbalanced hsize hpercent.2
  choose! index hscan hleast using hscans
  refine ⟨index, fun percent hpercent => ?_, ?_⟩
  · obtain ⟨⟨hlow, hhigh, -⟩, -⟩ := hleast percent hpercent
    have hat := hscan percent hpercent
    exact ⟨hat, sbPercentileCalculate_of_scanAt hpos hat, hlow, by omega⟩
  · intro percent hpercent percent' hpercent' hle
    have hrank : (exactScale scale.size scale.bucket percent).rank p.total
        ≤ (exactScale scale.size scale.bucket percent').rank p.total := by
      rw [BitVec.le_def, exactScale_rank hpercent.2, exactScale_rank hpercent'.2]
      exact targetRank_mono hle _
    exact (hleast percent hpercent).2 (reaching_anti hrank (hleast percent' hpercent').1)

/-- A histogram of three buckets, filled again after a reset. -/
theorem percentileScan_inside_three :
    (afterOps (exactScale 3 ownBucket 95)
        [.update 2, .calculate 50, .reset, .update 0, .update 1]).total ≠ 0 ∧
      Balanced (exactScale 3 ownBucket 95) (afterOps (exactScale 3 ownBucket 95)
        [.update 2, .calculate 50, .reset, .update 0, .update 1]) ∧
      ∃ index : ℕ → ℕ, scanAt (exactScale 3 ownBucket 95) (afterOps (exactScale 3 ownBucket 95)
        [.update 2, .calculate 50, .reset, .update 0, .update 1]) 100 = some (index 100) ∧
        1 ≤ index 100 ∧ index 100 ≤ 2 := by
  have hops : ∀ value, .update value ∈
      [.update 2, .calculate 50, .reset, .update 0, HistogramOp.update 1] →
      (exactScale 3 ownBucket 95).bucket value < (exactScale 3 ownBucket 95).size := by
    intro value hvalue
    simp only [List.mem_cons, HistogramOp.update.injEq, reduceCtorEq, false_or, List.not_mem_nil,
      or_false] at hvalue
    rcases hvalue with rfl | rfl | rfl <;> decide
  have hpos : (afterOps (exactScale 3 ownBucket 95)
      [.update 2, .calculate 50, .reset, .update 0, .update 1]).total ≠ 0 := by decide
  obtain ⟨⟨hbalanced, -⟩, hscan⟩ := percentileScan_inside (by decide) hops
  obtain ⟨index, hindex, -⟩ := hscan hpos
  obtain ⟨hat, -, hlow, hhigh⟩ := hindex 100 ⟨by decide, by decide⟩
  exact ⟨hpos, hbalanced, index, hat, hlow, hhigh⟩

end Sysbench.Logging
