import Sysbench.Random.Distributions

/-!
# Random/OptionRange — for which options `sb_rand` stays in its range

Nothing checks `--rand-spec-iter`, `--rand-spec-pct` and `--rand-spec-res`, and `sb_rand_special`
has divisors made of 32-bit products.  `RangeKept` says for which settings and which range every
sequence of draws gets a number of the range: there must be an iteration; `range_size` must not be
zero, which at the default settings it is for a range of `2 ^ 30` numbers; the special values must
be no more than the range has, unless no draw gets far enough to see it; and a range of one number
has to be `0`, because that is what `sb_rand_special` returns for it.
-/

namespace Sysbench.Random

variable {cfg : RandConfig} {a b : ℤ} {t : ℕ}

/-- `range_size`, for `rand_res` below 100. -/
def sizeOf (cfg : RandConfig) (t : ℕ) : ℕ := toU32 (t * (100 / (100 - cfg.res)) : ℕ)

/-- The values the first draw can leave in `res` are those below. -/
def reach (cfg : RandConfig) (t : ℕ) : ℕ := min (sizeOf cfg t) sbMaxRnd

/-- The special values lie in a range of `t`, as far as draws reach them. -/
def WindowKept (cfg : RandConfig) (t : ℕ) : Prop :=
  reach cfg t ≤ t ∨ pctOf cfg t / 100 ≤ t ∨
    pctOf cfg t / 200 ≤ t + t / 2 ∧ reach cfg t ≤ t + (pctOf cfg t / 200 - t / 2)

/-- **The settings and ranges with which `sb_rand` keeps what it says.** -/
def RangeKept (cfg : RandConfig) (a b : ℤ) : Prop :=
  match cfg.type with
  | .uniform | .pareto => True
  | .gaussian => cfg.iter ≠ 0
  | .special =>
    if a = b then a = 0
    else cfg.iter ≠ 0 ∧ cfg.res ≤ 99 ∧ sizeOf cfg (rangeOf a b) ≠ 0 ∧
      WindowKept cfg (rangeOf a b)

/-- `sb_rand(a, b)` returns a number of the range, whatever is drawn. -/
def InRange (f : (ℕ → Draw) → Option ℤ) (a b : ℤ) : Prop :=
  ∀ draw, ∃ v, f draw = some v ∧ a ≤ v ∧ v ≤ b

/-! ## The window -/

/-- A second part of `sb_rand_special` that ends in the range. -/
theorem specialValue_inRange_iff (ha : 0 ≤ a) (ht : (t : ℤ) = b - a + 1) (hb : b < 2 ^ 31 - 1)
    (res : ℕ) :
    (a ≤ specialValue cfg a t res ∧ specialValue cfg a t res ≤ b) ↔
      pctOf cfg t / 200 ≤ res % specialCount cfg t + t / 2 ∧
        res % specialCount cfg t + t / 2 < t + pctOf cfg t / 200 := by
  have hpct : pctOf cfg t < 2 ^ 32 := toU32_lt _
  have hcount : res % specialCount cfg t < specialCount cfg t :=
    Nat.mod_lt _ (Nat.lt_of_lt_of_le Nat.zero_lt_one (Nat.le_max_left _ _))
  rw [specialCount] at hcount
  unfold specialValue
  dsimp only
  rw [specialCount] at *
  generalize res % max 1 (pctOf cfg t / 100) = k at *
  generalize pctOf cfg t = m at *
  unfold toI32 toU32
  omega

/-- Which values of `res` are mapped into the range. -/
theorem windowKept_iff (ht : 2 ≤ t) :
    WindowKept cfg t ↔ ∀ res, t ≤ res → res < reach cfg t →
      pctOf cfg t / 200 ≤ res % specialCount cfg t + t / 2 ∧
        res % specialCount cfg t + t / 2 < t + pctOf cfg t / 200 := by
  unfold WindowKept specialCount
  generalize pctOf cfg t = m
  generalize reach cfg t = K
  have hhalf : m / 200 = m / 100 / 2 := (Nat.div_div_eq_div_mul m 100 2).symm
  rcases le_or_gt (m / 100) t with hd | hd
  · obtain ⟨hstart, hend⟩ := window_le ht hd
    refine iff_of_true (.inr (.inl hd)) fun res _ _ => ?_
    have hlt : res % max 1 (m / 100) < max 1 (m / 100) := Nat.mod_lt _ (by omega)
    omega
  rw [max_eq_right (by omega)]
  constructor
  · rintro (hreach | hle | ⟨hstart, hreach⟩) res hlo hhi
    · omega
    · omega
    · rw [Nat.mod_eq_of_lt (by omega)]
      omega
  · intro hall
    rcases le_or_gt K t with hK | hK
    · exact .inl hK
    have hfirst := hall t le_rfl hK
    rw [Nat.mod_eq_of_lt hd] at hfirst
    refine .inr (.inr ⟨by omega, ?_⟩)
    -- otherwise a draw reaches the end of the range, or the window starts again from its front
    by_contra hlong
    have hlast := hall (t + (m / 200 - t / 2)) (by omega) (by omega)
    rcases (show t + (m / 200 - t / 2) ≤ m / 100 by omega).lt_or_eq with hlt | heq
    · rw [Nat.mod_eq_of_lt hlt] at hlast
      omega
    · rw [heq, Nat.mod_self] at hlast
      omega

/-! ## The options -/

theorem meanOf_zero (hiter : cfg.iter = 0) (draw : ℕ → Draw) : meanOf cfg a t draw = none := by
  rw [meanOf, hiter]
  rfl

/-- `range_size` is zero, or there is none, for `rand_res` above 99. -/
theorem sbRandSpecial_none_of_res (hab : a < b) (hres : 99 < cfg.res) (draw : ℕ → Draw) :
    sbRandSpecial cfg a b draw = none := by
  have hlt := cfg.res_lt
  have hsize : rangeSize cfg (rangeOf a b) = none ∨ rangeSize cfg (rangeOf a b) = some 0 := by
    rcases eq_or_ne cfg.res 100 with heq | hne
    · exact .inl (by rw [rangeSize, heq]; rfl)
    · have hdiff : 100 < toU32 (100 - (cfg.res : ℤ)) := by
        unfold toU32
        omega
      rw [rangeSize, udiv_of_ne (by omega), Nat.div_eq_of_lt hdiff]
      exact .inr rfl
  rw [sbRandSpecial, if_neg (not_le.mpr hab)]
  rcases hsize with h | h <;> simp [h, umod]

theorem sbRandSpecial_none_of_size (hab : a < b) (hres : cfg.res ≤ 99)
    (hsize : sizeOf cfg (rangeOf a b) = 0) (draw : ℕ → Draw) :
    sbRandSpecial cfg a b draw = none := by
  have hzero : rangeSize cfg (rangeOf a b) = some 0 := by
    rw [rangeSize_eq hres]
    exact congrArg some hsize
  rw [sbRandSpecial, if_neg (not_le.mpr hab)]
  simp [hzero, umod]

theorem not_inRange_of_none {f : (ℕ → Draw) → Option ℤ} (draw : ℕ → Draw) (h : f draw = none) :
    ¬ InRange f a b := fun hall => by
  obtain ⟨v, hv, -⟩ := hall draw
  rw [h] at hv
  cases hv

/-- Nothing but zeros. -/
def zeroDraws : ℕ → Draw := fun _ => ⟨0, by decide⟩

/-- **The special distribution of a range of two numbers or more.** -/
theorem special_inRange_iff (ha : 0 ≤ a) (hab : a < b) (ht : (t : ℤ) = b - a + 1)
    (hb : b < 2 ^ 31 - 1) :
    InRange (sbRandSpecial cfg a b) a b ↔
      cfg.iter ≠ 0 ∧ cfg.res ≤ 99 ∧ sizeOf cfg t ≠ 0 ∧ WindowKept cfg t := by
  have hrange := rangeOf_eq ht (by omega)
  by_cases hres : cfg.res ≤ 99
  swap
  · exact iff_of_false (not_inRange_of_none zeroDraws
      (sbRandSpecial_none_of_res hab (not_le.mp hres) _)) fun h => hres h.2.1
  by_cases hsize : sizeOf cfg t = 0
  · exact iff_of_false (not_inRange_of_none zeroDraws
      (sbRandSpecial_none_of_size hab hres (hrange ▸ hsize) _)) fun h => h.2.2.1 hsize
  have heq := fun draw => sbRandSpecial_eq hab hrange (rangeSize_eq hres) hsize draw
  by_cases hiter : cfg.iter = 0
  · refine iff_of_false (not_inRange_of_none zeroDraws ?_) fun h => h.1 hiter
    have hzero : ((zeroDraws 0 : Draw) : ℕ) % sizeOf cfg t < t := by
      rw [show ((zeroDraws 0 : Draw) : ℕ) = 0 from rfl, Nat.zero_mod]
      omega
    exact (heq zeroDraws).trans ((if_pos hzero).trans (meanOf_zero hiter _))
  rw [windowKept_iff (by omega)]
  constructor
  · refine fun hall => ⟨hiter, hres, hsize, fun res hlo hhi => ?_⟩
    obtain ⟨hlt, hmax⟩ := lt_min_iff.mp hhi
    obtain ⟨v, hv, hin⟩ := hall fun _ => ⟨res, hmax⟩
    have hmod : res % sizeOf cfg t = res := Nat.mod_eq_of_lt hlt
    have hval : v = specialValue cfg a t res := by
      have h := heq fun _ => ⟨res, hmax⟩
      change _ = ite (res % sizeOf cfg t < t) _
        (some (specialValue cfg a t (res % sizeOf cfg t))) at h
      rw [hmod, if_neg (not_lt.mpr hlo), hv] at h
      exact Option.some.inj h
    exact (specialValue_inRange_iff ha ht hb res).mp (hval ▸ hin)
  · rintro ⟨-, -, -, hall⟩ draw
    rw [heq draw]
    split_ifs with hfirst
    · obtain ⟨v, hv, hlo, hhi⟩ := meanOf_eq hiter (show t ≠ 0 by omega) (show -2 ^ 31 ≤ a by omega)
        (by omega) fun i => draw (i + 1)
      exact ⟨v, hv, hlo, by omega⟩
    · refine ⟨_, rfl, (specialValue_inRange_iff ha ht hb _).mpr (hall _ (not_lt.mp hfirst) ?_)⟩
      exact lt_min (Nat.mod_lt _ (Nat.pos_of_ne_zero hsize))
        ((Nat.mod_le _ _).trans_lt (draw 0).isLt)

theorem uniform_inRange (ha : 0 ≤ a) (hab : a ≤ b) (hb : b < 2 ^ 31 - 1) :
    InRange (sbRandUniform a b) a b := by
  intro draw
  have hn : toI32 (b - a + 1) = b - a + 1 := toI32_of_lt (by omega) (by omega)
  have hmod : ((draw 0 : ℕ) : ℤ).tmod (b - a + 1) = ((draw 0 : ℕ) : ℤ) % (b - a + 1) :=
    Int.tmod_eq_emod_of_nonneg (Int.natCast_nonneg _)
  have hlo := Int.emod_nonneg ((draw 0 : ℕ) : ℤ) (show b - a + 1 ≠ 0 by omega)
  have hhi := Int.emod_lt_of_pos ((draw 0 : ℕ) : ℤ) (show 0 < b - a + 1 by omega)
  refine ⟨a + ((draw 0 : ℕ) : ℤ) % (b - a + 1), ?_, by omega, by omega⟩
  simp only [sbRandUniform, hn, hmod]
  rw [if_neg (by omega), toI32_of_lt (by omega) (by omega)]

theorem gaussian_inRange_iff (ha : 0 ≤ a) (hab : a ≤ b) (hb : b < 2 ^ 31 - 1) :
    InRange (sbRandGaussian cfg a b) a b ↔ cfg.iter ≠ 0 := by
  obtain ⟨t, ht⟩ := Int.eq_ofNat_of_zero_le (show 0 ≤ b - a + 1 by omega)
  have hrange := rangeOf_eq ht.symm (by omega)
  by_cases hiter : cfg.iter = 0
  · exact iff_of_false (not_inRange_of_none zeroDraws (meanOf_zero hiter _)) fun h => h hiter
  · refine iff_of_true (fun draw => ?_) hiter
    obtain ⟨v, hv, hlo, hhi⟩ := meanOf_eq hiter (show t ≠ 0 by omega) (show -2 ^ 31 ≤ a by omega)
      (by omega) draw
    exact ⟨v, by rw [sbRandGaussian, hrange, hv], hlo, by omega⟩

/-- **`sb_rand` stays in its range** for every sequence of draws exactly with these settings and
ranges. -/
theorem sbRand_inRange_iff (pareto : ℤ → ℤ → ℤ) (cfg : RandConfig) (htype : cfg.type ≠ .pareto)
    (a b : ℤ) (ha : 0 ≤ a) (hab : a ≤ b) (hb : b < 2 ^ 31 - 1) :
    InRange (sbRand pareto cfg a b) a b ↔ RangeKept cfg a b := by
  unfold sbRand RangeKept
  cases h : cfg.type with
  | uniform => exact iff_of_true (uniform_inRange ha hab hb) trivial
  | gaussian => exact gaussian_inRange_iff ha hab hb
  | special =>
    rcases hab.eq_or_lt with rfl | hlt
    · have hzero : sbRandSpecial cfg a a = fun _ => some 0 := funext fun _ => if_pos le_rfl
      dsimp only
      rw [if_pos rfl, hzero]
      refine ⟨fun hall => ?_, fun h0 _ => ⟨0, rfl, h0.le, h0.ge⟩⟩
      obtain ⟨v, hv, hlo, hhi⟩ := hall zeroDraws
      obtain rfl := Option.some.inj hv
      exact le_antisymm hlo hhi
    · obtain ⟨t, ht⟩ := Int.eq_ofNat_of_zero_le (show 0 ≤ b - a + 1 by omega)
      dsimp only
      rw [if_neg hlt.ne, rangeOf_eq ht.symm (by omega)]
      exact special_inRange_iff ha hlt ht.symm hb
  | pareto => exact absurd h htype

/-- At the default settings, ids from 1 to 10000. -/
theorem sbRand_inRange_defaults : InRange (sbRand (fun _ _ => 0) defaultRand 1 10000) 1 10000 :=
  (sbRand_inRange_iff _ defaultRand (by decide) 1 10000 (by decide) (by decide) (by decide)).mpr
    ⟨by decide, by decide, by decide, .inr (.inl (by decide))⟩

/-- **At the default settings**, a range of `2 ^ 30` numbers divides by zero, and a range of one
number returns `0`. -/
theorem sbRand_outOfRange :
    sbRand (fun _ _ => 0) defaultRand 0 (2 ^ 30 - 1) zeroDraws = none ∧
      sbRand (fun _ _ => 0) defaultRand 1 1 zeroDraws = some 0 := by
  decide

end Sysbench.Random
