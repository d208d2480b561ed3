import Mathlib.Tactic

/-!
# Machinery/MachineInt — C's fixed-width integer conversions, and calls that fail

A C object of type `unsigned int`, `int` or `long long` is carried as the integer it denotes; what
the width adds is the conversion done when a wider value is stored in it.  Unsigned types keep the
residue, signed ones the balanced residue of two's complement.  Both are the identity on values
that fit, which is the only fact the proofs use.  A call that may not come back with a value is an
`Except`.
-/

namespace Sysbench

/-- Conversion to `unsigned int`. -/
def toU32 (x : ℤ) : ℕ := (x % 2 ^ 32).toNat

/-- Conversion to `unsigned long long`. -/
def toU64 (x : ℤ) : ℕ := (x % 2 ^ 64).toNat

/-- Conversion to `int`. -/
def toI32 (x : ℤ) : ℤ := (x + 2 ^ 31) % 2 ^ 32 - 2 ^ 31

/-- Conversion to `long long`. -/
def toI64 (x : ℤ) : ℤ := (x + 2 ^ 63) % 2 ^ 64 - 2 ^ 63

theorem toU32_lt (x : ℤ) : toU32 x < 2 ^ 32 := by unfold toU32; omega

theorem toU32_of_lt {n : ℕ} (h : n < 2 ^ 32) : toU32 n = n := by unfold toU32; omega

theorem toU64_of_lt {n : ℕ} (h : n < 2 ^ 64) : toU64 n = n := by unfold toU64; omega

theorem toI32_of_lt {x : ℤ} (h : -2 ^ 31 ≤ x) (h' : x < 2 ^ 31) : toI32 x = x := by
  unfold toI32
  omega

theorem toI64_of_lt {x : ℤ} (h : -2 ^ 63 ≤ x) (h' : x < 2 ^ 63) : toI64 x = x := by
  unfold toI64
  omega

theorem toI32_lt (x : ℤ) : toI32 x < 2 ^ 31 := by
  unfold toI32
  omega

theorem toI64_lt (x : ℤ) : toI64 x < 2 ^ 63 := by
  unfold toI64
  omega

/-- Storing an `unsigned int` in an `int` and back loses nothing. -/
theorem toU32_toI32 (x : ℤ) : toU32 (toI32 x) = toU32 x := by
  unfold toU32 toI32
  omega

/-- Storing an `unsigned long` in a `long` and back loses nothing. -/
theorem toU64_toI64 (x : ℤ) : toU64 (toI64 x) = toU64 x := by
  unfold toU64 toI64
  omega

/-! ## Sums that leave their type

A signed sum that leaves its type has no meaning in C.  A cursor that moves in steps of `m` up to
`x` forms no sum above `roundUp x m`. -/

/-- A sum stays in `long long`. -/
def fitsI64 (x : ℤ) : Bool := -2 ^ 63 ≤ x && x < 2 ^ 63

theorem fitsI64_iff {x : ℤ} : fitsI64 x ↔ -2 ^ 63 ≤ x ∧ x < 2 ^ 63 := by simp [fitsI64]

/-- The next multiple of `m`, from `x` on. -/
def roundUp (x m : ℤ) : ℤ := (x + m - 1) / m * m

theorem roundUp_of_dvd {x m : ℤ} (hm : 0 < m) (hdvd : m ∣ x) : roundUp x m = x := by
  obtain ⟨k, rfl⟩ := hdvd
  have hk : (m * k + m - 1) / m = k := by
    rw [add_sub_assoc, Int.mul_add_ediv_left _ _ hm.ne',
      Int.ediv_eq_zero_of_lt (by omega) (by omega), add_zero]
  rw [roundUp, hk, mul_comm]

/-- A step from a multiple below `x` ends at the next multiple at the latest. -/
theorem add_le_roundUp {x m p : ℤ} (hm : 0 < m) (hdvd : m ∣ p) (hlt : p < x) :
    p + m ≤ roundUp x m := by
  obtain ⟨k, rfl⟩ := hdvd
  have hk : k + 1 ≤ (x + m - 1) / m := by
    rw [Int.le_ediv_iff_mul_le hm]
    linarith
  calc m * k + m = (k + 1) * m := by ring
    _ ≤ roundUp x m := mul_le_mul_of_nonneg_right hk hm.le

theorem roundUp_le {x m y : ℤ} (hm : 0 < m) (hdvd : m ∣ y) (hle : x ≤ y) : roundUp x m ≤ y := by
  obtain ⟨k, rfl⟩ := hdvd
  have hk : (x + m - 1) / m ≤ k := by
    rw [← Int.lt_add_one_iff, Int.ediv_lt_iff_lt_mul hm]
    linarith
  calc roundUp x m ≤ k * m := mul_le_mul_of_nonneg_right hk hm.le
    _ = m * k := mul_comm _ _

/-- The step over `x` ends there. -/
theorem roundUp_eq_add {x m p : ℤ} (hm : 0 < m) (hdvd : m ∣ p) (hlt : p < x) (hle : x ≤ p + m) :
    roundUp x m = p + m :=
  le_antisymm (roundUp_le hm (hdvd.add dvd_rfl) hle) (add_le_roundUp hm hdvd hlt)

/-! ## Calls that may fail -/

/-- A computation followed by another one succeeds when both do. -/
theorem except_bind_eq_ok {ε α β : Type} {x : Except ε α} {f : α → Except ε β} {b : β} :
    x >>= f = .ok b ↔ ∃ a, x = .ok a ∧ f a = .ok b := by
  cases x <;> simp [bind, Except.bind]

/-- A check that reports an error has been passed where the computation succeeds. -/
theorem except_check_eq_ok {ε α : Type} {p : Prop} [Decidable p] {e : ε} {f : ¬ p → Except ε α}
    {a : α} (h : (if hp : p then .error e else f hp) = .ok a) : ∃ hp : ¬ p, f hp = .ok a := by
  split at h
  next => cases h
  next hp => exact ⟨hp, h⟩

end Sysbench
