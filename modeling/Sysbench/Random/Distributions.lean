import Sysbench.Machinery.MachineInt

/-!
# Random/Distributions — the distributions of `--rand-type`

`sb_rand` draws a number from a range with one of four functions.  Their accumulators are 32 bits
wide and partly signed, and what they divide by comes from the options as they were given: nothing
is checked.  A division by zero is `none`.

A sum of draws may exceed 32 bits; what is left of it is divided as an unsigned number, and that can
only make the mean smaller (`sumDraws_eq`).  The second branch of `sb_rand_special` returns values
from a window around the centre of the range; `window_le` is the arithmetic that keeps it inside.
-/

namespace Sysbench.Random

/-- `SB_MAX_RND`. -/
def sbMaxRnd : ℕ := 0x3fffffff

/-- What `sb_rnd()` returns. -/
abbrev Draw : Type := Fin sbMaxRnd

/-- The distributions. -/
inductive DistType
  | uniform
  | gaussian
  | special
  | pareto
  deriving DecidableEq, Repr

/-! ## The options -/

/-- What the option library answers for the options `init` reads here. -/
structure RandOptions where
  randInit : Bool
  randSeed : ℤ
  randType : String
  randSpecIter : ℤ
  randSpecPct : ℤ
  randSpecRes : ℤ

/-- `rand_type`, `rand_iter`, `rand_pct` and `rand_res`, the last three `unsigned int`. -/
structure RandConfig where
  type : DistType
  iter : ℕ
  pct : ℕ
  res : ℕ
  iter_lt : iter < 2 ^ 32
  pct_lt : pct < 2 ^ 32
  res_lt : res < 2 ^ 32

/-- `--rand-type`. -/
def parseRandType : String → Except String DistType
  | "uniform" => .ok .uniform
  | "gaussian" => .ok .gaussian
  | "special" => .ok .special
  | "pareto" => .ok .pareto
  | s => .error ("Invalid random numbers distribution: " ++ s ++ ".")

/-- The part of `init` that reads the options of the generator. -/
def initRand (o : RandOptions) : Except String RandConfig :=
  if o.randInit ∧ o.randSeed ≠ 0 then .error "Cannot set both --rand-init and --rand-seed"
  else do
    let type ← parseRandType o.randType
    return ⟨type, toU32 o.randSpecIter, toU32 o.randSpecPct, toU32 o.randSpecRes, toU32_lt _,
      toU32_lt _, toU32_lt _⟩

/-- The defaults of the options. -/
def defaultRand : RandConfig :=
  ⟨.special, 12, 1, 75, by norm_num, by norm_num, by norm_num⟩

example : initRand ⟨false, 0, "special", 12, 1, 75⟩ = .ok defaultRand := rfl

/-! ## The distributions -/

/-- Unsigned division. -/
def udiv (x y : ℕ) : Option ℕ := if y = 0 then none else some (x / y)

/-- The remainder of unsigned division. -/
def umod (x y : ℕ) : Option ℕ := if y = 0 then none else some (x % y)

theorem udiv_of_ne {x y : ℕ} (h : y ≠ 0) : udiv x y = some (x / y) := if_neg h

theorem umod_of_ne {x y : ℕ} (h : y ≠ 0) : umod x y = some (x % y) := if_neg h

/-- `b - a + 1`, as the `unsigned int` `t`. -/
def rangeOf (a b : ℤ) : ℕ := toU32 (b - a + 1)

/-- `sb_rand_uniform`.  The draw is a `long`, the length of the range an `int`. -/
def sbRandUniform (a b : ℤ) (draw : ℕ → Draw) : Option ℤ :=
  let n := toI32 (b - a + 1)
  if n = 0 then none else some (toI32 (a + ((draw 0 : ℕ) : ℤ).tmod n))

/-- `sum` after `n` iterations of the loop over the draws. -/
def sumDraws (t : ℕ) (draw : ℕ → Draw) : ℕ → Option ℤ
  | 0 => some 0
  | n + 1 => do
    let sum ← sumDraws t draw n
    let r ← umod (draw n) t
    some (toI32 (sum + r))

/-- The loop and the mean of it: `a + sum / rand_iter`, with `sum` an `int` and the rest
unsigned. -/
def meanOf (cfg : RandConfig) (a : ℤ) (t : ℕ) (draw : ℕ → Draw) : Option ℤ := do
  let sum ← sumDraws t draw cfg.iter
  let mean ← udiv (toU32 sum) cfg.iter
  some (toI32 (a + mean))

/-- `sb_rand_gaussian`. -/
def sbRandGaussian (cfg : RandConfig) (a b : ℤ) (draw : ℕ → Draw) : Option ℤ :=
  meanOf cfg a (rangeOf a b) draw

/-- `range_size`. -/
def rangeSize (cfg : RandConfig) (t : ℕ) : Option ℕ :=
  (udiv 100 (toU32 (100 - (cfg.res : ℤ)))).map fun q => toU32 (t * q : ℕ)

/-- `t * rand_pct`. -/
def pctOf (cfg : RandConfig) (t : ℕ) : ℕ := toU32 (t * cfg.pct : ℕ)

/-- `d`: the number of special values. -/
def specialCount (cfg : RandConfig) (t : ℕ) : ℕ := max 1 (pctOf cfg t / 100)

/-- The second part of `sb_rand_special`, for the value `res` of the first draw. -/
def specialValue (cfg : RandConfig) (a : ℤ) (t res : ℕ) : ℤ :=
  let res := res % specialCount cfg t
  let res := toU32 (res + toU32 ((t / 2 : ℕ) - (pctOf cfg t / (100 * 2) : ℕ)))
  toI32 (a + res)

/-- `sb_rand_special`. -/
def sbRandSpecial (cfg : RandConfig) (a b : ℤ) (draw : ℕ → Draw) : Option ℤ :=
  if b ≤ a then some 0
  else do
    let t := rangeOf a b
    let size ← rangeSize cfg t
    let res ← umod (draw 0) size
    if res < t then meanOf cfg a t fun i => draw (i + 1)
    else some (specialValue cfg a t res)

/-- `sb_rand`.  `sb_rand_pareto` computes in floating point; `pareto` is what it returns. -/
def sbRand (pareto : ℤ → ℤ → ℤ) (cfg : RandConfig) (a b : ℤ) (draw : ℕ → Draw) : Option ℤ :=
  match cfg.type with
  | .uniform => sbRandUniform a b draw
  | .gaussian => sbRandGaussian cfg a b draw
  | .special => sbRandSpecial cfg a b draw
  | .pareto => some (pareto a b)

/-! ## The mean of draws -/

variable {cfg : RandConfig} {a b : ℤ} {t : ℕ} {draw : ℕ → Draw}

theorem toU32_add_le (x : ℤ) (r : ℕ) : toU32 (x + r) ≤ toU32 x + r := by
  unfold toU32
  omega

/-- **What is left of a sum of draws is no more than the sum.** -/
theorem sumDraws_eq (ht : t ≠ 0) (n : ℕ) :
    ∃ sum, sumDraws t draw n = some sum ∧ toU32 sum ≤ n * (t - 1) := by
  induction n with
  | zero => exact ⟨0, rfl, Nat.zero_le _⟩
  | succ n ih =>
    obtain ⟨sum, hsum, hle⟩ := ih
    have hr : (draw n : ℕ) % t ≤ t - 1 := Nat.le_sub_one_of_lt (Nat.mod_lt _ (by omega))
    refine ⟨toI32 (sum + ((draw n : ℕ) % t : ℕ)), ?_, ?_⟩
    · simp [sumDraws, hsum, umod_of_ne ht]
    · calc toU32 (toI32 (sum + ((draw n : ℕ) % t : ℕ)))
          = toU32 (sum + ((draw n : ℕ) % t : ℕ)) := toU32_toI32 _
        _ ≤ toU32 sum + (draw n : ℕ) % t := toU32_add_le _ _
        _ ≤ n * (t - 1) + (t - 1) := Nat.add_le_add hle hr
        _ = (n + 1) * (t - 1) := (Nat.succ_mul n (t - 1)).symm

/-- **The mean is in the range**, whatever was cut from the sum. -/
theorem meanOf_eq (hiter : cfg.iter ≠ 0) (ht : t ≠ 0) (ha : -2 ^ 31 ≤ a) (hb : a + t ≤ 2 ^ 31)
    (draw : ℕ → Draw) :
    ∃ v, meanOf cfg a t draw = some v ∧ a ≤ v ∧ v < a + t := by
  obtain ⟨sum, hsum, hle⟩ := sumDraws_eq (t := t) ht cfg.iter
  obtain ⟨mean, hmean⟩ : ∃ mean, mean = toU32 sum / cfg.iter := ⟨_, rfl⟩
  have hlt : mean ≤ t - 1 := hmean ▸ Nat.div_le_of_le_mul hle
  refine ⟨a + mean, ?_, by omega, by omega⟩
  rw [meanOf, hsum, Option.bind_eq_bind, Option.bind_some, udiv_of_ne hiter, ← hmean,
    Option.bind_eq_bind, Option.bind_some, toI32_of_lt (by omega) (by omega)]

/-! ## The window of the special values -/

/-- **A window no longer than the range lies inside it.** -/
theorem window_le {m : ℕ} (ht : 2 ≤ t) (hm : m / 100 ≤ t) :
    m / 200 ≤ t / 2 ∧ t / 2 - m / 200 + max 1 (m / 100) ≤ t := by
  have hhalf : m / 200 = m / 100 / 2 := (Nat.div_div_eq_div_mul m 100 2).symm
  omega

/-- A value of the second part, where the window lies inside the range. -/
theorem specialValue_eq (ht : 2 ≤ t) (hm : pctOf cfg t / 100 ≤ t) (ha : -2 ^ 31 ≤ a)
    (hb : a + t ≤ 2 ^ 31) (res : ℕ) :
    specialValue cfg a t res
      = a + (t / 2 - pctOf cfg t / 200 + res % specialCount cfg t : ℕ) := by
  obtain ⟨hstart, hend⟩ := window_le ht hm
  have hres : res % specialCount cfg t < specialCount cfg t :=
    Nat.mod_lt _ (Nat.lt_of_lt_of_le Nat.zero_lt_one (Nat.le_max_left _ _))
  have hcount : t / 2 - pctOf cfg t / 200 + specialCount cfg t ≤ t := hend
  have hinner : toU32 ((t / 2 : ℕ) - (pctOf cfg t / (100 * 2) : ℕ))
      = t / 2 - pctOf cfg t / 200 := by
    rw [← Int.ofNat_sub hstart]
    exact toU32_of_lt (by omega)
  have houter : toU32 ((res % specialCount cfg t : ℕ) + (t / 2 - pctOf cfg t / 200 : ℕ))
      = t / 2 - pctOf cfg t / 200 + res % specialCount cfg t := by
    rw [← Nat.cast_add, toU32_of_lt (by omega), add_comm]
  simp only [specialValue]
  rw [hinner, houter]
  exact toI32_of_lt (by omega) (by omega)

/-- `range_size`, where nothing is cut from it. -/
theorem rangeSize_eq (hres : cfg.res ≤ 99) :
    rangeSize cfg t = some (toU32 (t * (100 / (100 - cfg.res)) : ℕ)) := by
  have hdiff : toU32 (100 - (cfg.res : ℤ)) = 100 - cfg.res := by
    unfold toU32
    omega
  rw [rangeSize, hdiff, udiv_of_ne (by omega)]
  rfl

theorem rangeOf_eq (ht : (t : ℤ) = b - a + 1) (htlt : t < 2 ^ 32) : rangeOf a b = t := by
  rw [rangeOf, ← ht]
  exact toU32_of_lt htlt

/-- The two parts of `sb_rand_special`. -/
theorem sbRandSpecial_eq {size : ℕ} (hab : a < b) (ht : rangeOf a b = t)
    (hsize : rangeSize cfg t = some size) (hne : size ≠ 0) (draw : ℕ → Draw) :
    sbRandSpecial cfg a b draw
      = if (draw 0 : ℕ) % size < t then meanOf cfg a t fun i => draw (i + 1)
        else some (specialValue cfg a t ((draw 0 : ℕ) % size)) := by
  rw [sbRandSpecial, if_neg (not_le.mpr hab)]
  simp only [ht, hsize, umod_of_ne hne, Option.bind_eq_bind, Option.bind_some]

/-- **The distributions stay in the range.**  With the 32-bit arithmetic of the source,
`sb_rand_gaussian` and the first part of `sb_rand_special` return a value of the range, and the
second part one of a window of it, for every sequence of draws. -/
theorem distributions_inRange (cfg : RandConfig) (a b : ℤ) (ha : -2 ^ 31 ≤ a) (hb : b < 2 ^ 31)
    (hab : a < b) (t : ℕ) (ht : (t : ℤ) = b - a + 1) (htlt : t < 2 ^ 31) (hiter : 1 ≤ cfg.iter)
    (hpct : cfg.pct ≤ 100) (hres : cfg.res ≤ 99) (hsize : t * (100 / (100 - cfg.res)) < 2 ^ 32)
    (htpct : t * cfg.pct < 2 ^ 32) (draw : ℕ → Draw) :
    (∃ v, sbRandGaussian cfg a b draw = some v ∧ a ≤ v ∧ v ≤ b) ∧
    ∃ v, sbRandSpecial cfg a b draw = some v ∧
      if (draw 0 : ℕ) % (t * (100 / (100 - cfg.res))) < t then a ≤ v ∧ v ≤ b
      else ∃ start : ℤ, start = a + (t / 2 : ℕ) - (t * cfg.pct / 200 : ℕ) ∧ a ≤ start ∧
        start ≤ v ∧ v < start + max 1 (t * cfg.pct / 100) ∧
        start + max 1 (t * cfg.pct / 100) ≤ b + 1 := by
  have hrange := rangeOf_eq ht (by omega)
  have hmean : ∀ draw, ∃ v, meanOf cfg a t draw = some v ∧ a ≤ v ∧ v ≤ b := fun draw => by
    obtain ⟨v, hv, hlo, hhi⟩ := meanOf_eq (Nat.one_le_iff_ne_zero.mp hiter)
      (show t ≠ 0 by omega) ha (by omega) draw
    exact ⟨v, hv, hlo, by omega⟩
  refine ⟨by rw [sbRandGaussian, hrange]; exact hmean draw, ?_⟩
  have hfactor : 1 ≤ 100 / (100 - cfg.res) := (Nat.one_le_div_iff (by omega)).mpr (by omega)
  have hne : t * (100 / (100 - cfg.res)) ≠ 0 := Nat.mul_ne_zero (by omega) (by omega)
  have hsizeOf : rangeSize cfg t = some (t * (100 / (100 - cfg.res))) := by
    rw [rangeSize_eq hres, toU32_of_lt hsize]
  rw [sbRandSpecial_eq hab hrange hsizeOf hne]
  split_ifs with hfirst
  · exact hmean _
  · have hpctOf : pctOf cfg t = t * cfg.pct := toU32_of_lt htpct
    have hle : t * cfg.pct / 100 ≤ t := Nat.div_le_of_le_mul (by nlinarith)
    obtain ⟨hstart, hend⟩ := window_le (m := t * cfg.pct) (t := t) (by omega) hle
    have hvalue := specialValue_eq (show 2 ≤ t by omega)
      (show pctOf cfg t / 100 ≤ t by rw [hpctOf]; exact hle) ha (by omega)
      ((draw 0 : ℕ) % (t * (100 / (100 - cfg.res))))
    have hlt := Nat.mod_lt ((draw 0 : ℕ) % (t * (100 / (100 - cfg.res))))
      (show 0 < specialCount cfg t from Nat.lt_of_lt_of_le Nat.zero_lt_one (Nat.le_max_left _ _))
    generalize (draw 0 : ℕ) % (t * (100 / (100 - cfg.res))) % specialCount cfg t = k at hvalue hlt
    rw [specialCount, hpctOf] at hlt
    rw [hpctOf] at hvalue
    generalize t * cfg.pct = m at hvalue hlt hstart hend ⊢
    refine ⟨_, rfl, _, rfl, ?_, ?_, ?_, ?_⟩ <;> omega

/-- At the default settings, a hundred special values of ten thousand. -/
theorem distributions_inRange_defaults :
    ∃ v, sbRandSpecial defaultRand 1 10000 (fun _ => ⟨39999, by decide⟩) = some v ∧
      4951 ≤ v ∧ v < 5051 := by
  obtain ⟨-, v, hv, hwindow⟩ := distributions_inRange defaultRand 1 10000 (by norm_num)
    (by norm_num) (by norm_num) 10000 (by norm_num) (by norm_num) (by decide) (by decide)
    (by decide) (by decide) (by decide) fun _ => ⟨39999, by decide⟩
  rw [if_neg (by decide)] at hwindow
  obtain ⟨start, rfl, -, hlo, hhi, -⟩ := hwindow
  exact ⟨v, hv, hlo, hhi⟩

end Sysbench.Random
