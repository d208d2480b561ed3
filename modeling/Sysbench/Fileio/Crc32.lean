import Sysbench.Machinery.Memory

/-!
# Fileio/Crc32 — the checksum of a block

`crc32` runs through a buffer four bytes at a time, with four tables; only the bytes before the
first word and after the last one are taken singly.  Shifting the register by a byte is linear over
exclusive or, which makes the four tables powers of the first one, a word the same as its four bytes
(`crc32_eq`), and the top byte of the checksum depend on the last byte of the buffer
(`crc32_top_ne`).
-/

namespace Sysbench.Fileio

/-- The polynomial exclusive-or pattern of `make_crc_table`, from its terms. -/
def poly : BitVec 32 :=
  [0, 1, 2, 4, 5, 7, 8, 10, 11, 12, 16, 22, 23, 26].foldl (fun q p => q ||| 1#32 <<< (31 - p)) 0

example : poly = 0xedb88320#32 := by decide

/-- One bit of `make_crc_table`. -/
def crcBit (c : BitVec 32) : BitVec 32 := if c.getLsbD 0 then poly ^^^ (c >>> 1) else c >>> 1

/-- `crc_table[0][n]`, the CRC of a byte. -/
def crcTable0 (n : BitVec 32) : BitVec 32 := crcBit^[8] n

/-- `crc_table[k][n]`: the CRC of a byte followed by `k` zeros. -/
def crcTable : ℕ → BitVec 32 → BitVec 32
  | 0, n => crcTable0 n
  | k + 1, n => crcTable0 (crcTable k n &&& 0xff#32) ^^^ (crcTable k n >>> 8)

/-- The register after one more byte. -/
def crcByte (c : BitVec 32) (b : Byte) : BitVec 32 :=
  crcTable0 ((c ^^^ b.setWidth 32) &&& 0xff#32) ^^^ (c >>> 8)

/-- A little-endian `u4` in memory. -/
def leWord (b₀ b₁ b₂ b₃ : Byte) : BitVec 32 := b₃ ++ b₂ ++ b₁ ++ b₀

/-- `DOLIT4`: the register after one more word. -/
def doLit4 (c w : BitVec 32) : BitVec 32 :=
  let c := c ^^^ w
  crcTable 3 (c &&& 0xff#32) ^^^ crcTable 2 ((c >>> 8) &&& 0xff#32) ^^^
    crcTable 1 ((c >>> 16) &&& 0xff#32) ^^^ crcTable 0 (c >>> 24)

/-- The loops of `crc32_little` from the first word on: words while there are four bytes left
(`DOLIT32` is eight of them), then single bytes. -/
def crcWords : BitVec 32 → List Byte → BitVec 32
  | c, b₀ :: b₁ :: b₂ :: b₃ :: bytes => crcWords (doLit4 c (leWord b₀ b₁ b₂ b₃)) bytes
  | c, bytes => bytes.foldl crcByte c

/-- `crc32(0, buf, len)` on the bytes of a buffer at address `addr`. -/
def crc32 (addr : ℕ) (bytes : List Byte) : BitVec 32 :=
  let unaligned := (4 - addr % 4) % 4
  ~~~ crcWords ((bytes.take unaligned).foldl crcByte (~~~ 0#32)) (bytes.drop unaligned)

-- the bytes of "123456789"
example : crc32 0 ((List.range 9).map fun i => BitVec.ofNat 8 (i + 0x31)) = 0xcbf43926#32 := by
  decide +kernel

/-! ## Shifting the register -/

theorem crcBit_xor (x y : BitVec 32) : crcBit (x ^^^ y) = crcBit x ^^^ crcBit y := by
  unfold crcBit
  rw [BitVec.getLsbD_xor, BitVec.ushiftRight_xor_distrib]
  cases x.getLsbD 0 <;> cases y.getLsbD 0
  all_goals
    simp only [Bool.xor_self, Bool.xor_true, Bool.xor_false, Bool.not_false, Bool.false_eq_true,
      if_true, if_false]
  · ac_rfl
  · ac_rfl
  · have hcancel : poly ^^^ x >>> 1 ^^^ (poly ^^^ y >>> 1)
        = poly ^^^ poly ^^^ (x >>> 1 ^^^ y >>> 1) := by ac_rfl
    rw [hcancel, BitVec.xor_self, BitVec.zero_xor]

/-- A bit that is zero is shifted out. -/
theorem crcBit_shiftLeft {v : BitVec 32} {m : ℕ} (hv : v.toNat < 2 ^ 24) (hm : m < 8) :
    crcBit (v <<< (m + 1)) = v <<< m := by
  have hpow : 2 ^ (m + 1) ≤ 2 ^ 8 := Nat.pow_le_pow_right (by decide) hm
  have hfit : v.toNat * 2 ^ (m + 1) < 2 ^ 32 := by nlinarith
  have hlow : (v <<< (m + 1)).getLsbD 0 = false := by simp
  rw [crcBit, hlow]
  refine BitVec.eq_of_toNat_eq ?_
  have hhalf : v.toNat * 2 ^ (m + 1) = v.toNat * 2 ^ m * 2 := by ring
  simp only [Bool.false_eq_true, if_false, BitVec.toNat_ushiftRight, BitVec.toNat_shiftLeft,
    Nat.shiftLeft_eq, Nat.shiftRight_eq_div_pow]
  rw [Nat.mod_eq_of_lt hfit, Nat.mod_eq_of_lt (by omega)]
  omega

/-- The register after a zero byte. -/
def crcZero (c : BitVec 32) : BitVec 32 := crcBit^[8] c

theorem crcZero_xor (x y : BitVec 32) : crcZero (x ^^^ y) = crcZero x ^^^ crcZero y := by
  simp only [crcZero, Function.iterate_succ, Function.iterate_zero, Function.comp_apply, id_eq,
    crcBit_xor]

/-- A byte that is zero is shifted out. -/
theorem crcZero_shiftLeft {v : BitVec 32} (hv : v.toNat < 2 ^ 24) : crcZero (v <<< 8) = v := by
  simp only [crcZero, Function.iterate_succ, Function.iterate_zero, Function.comp_apply, id_eq]
  rw [crcBit_shiftLeft hv (by decide), crcBit_shiftLeft hv (by decide),
    crcBit_shiftLeft hv (by decide), crcBit_shiftLeft hv (by decide),
    crcBit_shiftLeft hv (by decide), crcBit_shiftLeft hv (by decide),
    crcBit_shiftLeft hv (by decide), crcBit_shiftLeft hv (by decide), BitVec.shiftLeft_zero]

/-- A word is its low byte and the rest. -/
theorem low_xor_rest (x : BitVec 32) : (x &&& 0xff#32) ^^^ ((x >>> 8) <<< 8) = x := by
  have hmask : ∀ i < 32, (0xff#32).getLsbD i = decide (i < 8) := by decide
  refine BitVec.eq_of_getLsbD_eq fun i hi => ?_
  rw [BitVec.getLsbD_xor, BitVec.getLsbD_and, hmask i hi, BitVec.getLsbD_shiftLeft,
    BitVec.getLsbD_ushiftRight]
  rcases Nat.lt_or_ge i 8 with h | h
  · simp [h]
  · simp [h, not_lt.mpr h, hi]

theorem toNat_ushiftRight_lt (x : BitVec 32) : (x >>> 8).toNat < 2 ^ 24 := by
  rw [BitVec.toNat_ushiftRight, Nat.shiftRight_eq_div_pow]
  have := x.isLt
  omega

/-- **The table entry of the low byte, and the rest shifted down.** -/
theorem crcZero_eq (x : BitVec 32) : crcZero x = crcZero (x &&& 0xff#32) ^^^ (x >>> 8) := by
  conv_lhs => rw [← low_xor_rest x]
  rw [crcZero_xor, crcZero_shiftLeft (toNat_ushiftRight_lt x)]

theorem iterate_crcZero_xor (k : ℕ) (x y : BitVec 32) :
    crcZero^[k] (x ^^^ y) = crcZero^[k] x ^^^ crcZero^[k] y := by
  induction k generalizing x y with
  | zero => rfl
  | succ k ih => rw [Function.iterate_succ_apply, crcZero_xor, ih]; rfl

/-- The tables are the powers of the shift. -/
theorem crcTable_eq (k : ℕ) (n : BitVec 32) : crcTable k n = crcZero^[k + 1] n := by
  induction k with
  | zero => rfl
  | succ k ih => rw [Function.iterate_succ_apply' crcZero (k + 1), ← ih, crcZero_eq]; rfl

theorem crcByte_eq (c : BitVec 32) (b : Byte) : crcByte c b = crcZero (c ^^^ b.setWidth 32) := by
  have hb : b.setWidth 32 >>> 8 = 0#32 := by
    refine BitVec.eq_of_toNat_eq ?_
    have := b.isLt
    simp [Nat.shiftRight_eq_div_pow]
    omega
  rw [crcZero_eq, BitVec.ushiftRight_xor_distrib, hb, BitVec.xor_zero]
  rfl

/-- **A word of the register**, byte by byte. -/
theorem doLit4_eq (c w : BitVec 32) : doLit4 c w = crcZero^[4] (c ^^^ w) := by
  have hsplit : ∀ k (x : BitVec 32),
      crcZero^[k + 1] x = crcZero^[k + 1] (x &&& 0xff#32) ^^^ crcZero^[k] (x >>> 8) := fun k x => by
    rw [Function.iterate_succ_apply, crcZero_eq, iterate_crcZero_xor]
    rfl
  unfold doLit4
  simp only [crcTable_eq]
  generalize c ^^^ w = x
  rw [hsplit 3 x, hsplit 2 (x >>> 8), hsplit 1 (x >>> 8 >>> 8), ← BitVec.shiftRight_add,
    ← BitVec.shiftRight_add]
  simp only [Function.iterate_succ, Function.iterate_zero, Function.comp_apply, id_eq,
    BitVec.xor_assoc]

/-! ## Words are their bytes -/

theorem setWidth_toNat_lt (b : Byte) : (b.setWidth 32).toNat < 2 ^ 8 := by
  have := b.isLt
  rw [BitVec.toNat_setWidth]
  omega

/-- A byte below a number of `m` bits. -/
theorem byte_below_lt {m : ℕ} {y : BitVec 32} (b : Byte) (hy : y.toNat < 2 ^ m) :
    (b.setWidth 32 ^^^ y <<< 8).toNat < 2 ^ (m + 8) := by
  rw [BitVec.toNat_xor]
  refine Nat.xor_lt_two_pow ?_ ?_
  · exact (setWidth_toNat_lt b).trans_le (Nat.pow_le_pow_right (by decide) (by omega))
  · rw [BitVec.toNat_shiftLeft, Nat.shiftLeft_eq, pow_add]
    exact (Nat.mod_le _ _).trans_lt (Nat.mul_lt_mul_of_pos_right hy (by decide))

theorem leWord_eq (b₀ b₁ b₂ b₃ : Byte) :
    leWord b₀ b₁ b₂ b₃ = b₀.setWidth 32 ^^^
      (b₁.setWidth 32 ^^^ (b₂.setWidth 32 ^^^ b₃.setWidth 32 <<< 8) <<< 8) <<< 8 := by
  refine BitVec.eq_of_getLsbD_eq fun i hi => ?_
  simp only [leWord, BitVec.getLsbD_append, BitVec.getLsbD_xor, BitVec.getLsbD_shiftLeft,
    BitVec.getLsbD_setWidth]
  -- the byte that holds bit `i`; the ones below it have no such bit
  rcases Nat.lt_or_ge i 8 with h | h
  · simp [h, hi]
  rw [BitVec.getLsbD_of_ge b₀ i h]
  rcases Nat.lt_or_ge i 16 with h' | h'
  · simp [not_lt.mpr h, hi, show i - 8 < 8 by omega, show i - 8 < 32 by omega]
  rw [BitVec.getLsbD_of_ge b₁ (i - 8) (by omega)]
  rcases Nat.lt_or_ge i 24 with h'' | h''
  · simp [not_lt.mpr h, hi, show ¬ i - 8 < 8 by omega, show i - 8 < 32 by omega,
      show i - 8 - 8 < 8 by omega, show i - 8 - 8 < 32 by omega]
  rw [BitVec.getLsbD_of_ge b₂ (i - 8 - 8) (by omega)]
  simp [not_lt.mpr h, hi, show ¬ i - 8 < 8 by omega, show i - 8 < 32 by omega,
    show ¬ i - 8 - 8 < 8 by omega, show i - 8 - 8 < 32 by omega,
    show i - 8 - 8 - 8 < 32 by omega]

/-- The first byte of a word, and the rest of it moved down. -/
theorem crcZero_word {y : BitVec 32} (c : BitVec 32) (b : Byte) (hy : y.toNat < 2 ^ 24) :
    crcZero (c ^^^ (b.setWidth 32 ^^^ y <<< 8)) = crcByte c b ^^^ y := by
  rw [← BitVec.xor_assoc, crcZero_xor, crcZero_shiftLeft hy, crcByte_eq]

/-- **A word is its four bytes.** -/
theorem doLit4_leWord (c : BitVec 32) (b₀ b₁ b₂ b₃ : Byte) :
    doLit4 c (leWord b₀ b₁ b₂ b₃) = [b₀, b₁, b₂, b₃].foldl crcByte c := by
  have h₃ := setWidth_toNat_lt b₃
  have h₂ := byte_below_lt b₂ h₃
  have h₁ := byte_below_lt b₁ h₂
  simp only [doLit4_eq, leWord_eq, Function.iterate_succ, Function.iterate_zero,
    Function.comp_apply, id_eq, List.foldl_cons, List.foldl_nil]
  rw [crcZero_word c b₀ h₁, crcZero_word _ b₁ (h₂.trans (by decide)),
    crcZero_word _ b₂ (h₃.trans (by decide)), ← crcByte_eq]

theorem crcWords_eq (c : BitVec 32) (bytes : List Byte) :
    crcWords c bytes = bytes.foldl crcByte c := by
  fun_induction crcWords c bytes with
  | case1 c b₀ b₁ b₂ b₃ bytes ih =>
    rw [ih, doLit4_leWord]
    rfl
  | case2 => rfl

/-- **The checksum is the CRC of the bytes**, wherever the buffer is. -/
theorem crc32_eq (addr : ℕ) (bytes : List Byte) :
    crc32 addr bytes = ~~~ bytes.foldl crcByte (~~~ 0#32) := by
  unfold crc32
  dsimp only
  rw [crcWords_eq, ← List.foldl_append, List.take_append_drop]

/-- **The last byte moves the top byte of the checksum.** -/
theorem crc32_top_ne (addr : ℕ) (bytes : List Byte) :
    (crc32 addr (bytes ++ [0])).toNat / 2 ^ 24 ≠ (crc32 addr (bytes ++ [1])).toNat / 2 ^ 24 := by
  intro htop
  rw [crc32_eq, crc32_eq] at htop
  simp only [List.foldl_append, List.foldl_cons, List.foldl_nil] at htop
  generalize bytes.foldl crcByte (~~~ 0#32) = c at htop
  have hdiff : crcByte c 1 = crcByte c 0 ^^^ crcZero 1 := by
    rw [crcByte_eq, crcByte_eq, ← crcZero_xor]
    refine congrArg crcZero ?_
    rw [show (0 : Byte).setWidth 32 = 0#32 from rfl, BitVec.xor_zero]
    rfl
  have hone : crcZero 1 = 0x77073096#32 := by decide
  have hshift : ∀ x : BitVec 32, x.toNat / 2 ^ 24 = (x >>> 24).toNat := fun x => by
    rw [BitVec.toNat_ushiftRight, Nat.shiftRight_eq_div_pow]
  have hnot : ~~~ (crcByte c 0 ^^^ 0x77073096#32) = ~~~ crcByte c 0 ^^^ 0x77073096#32 := by
    rw [BitVec.not_xor_left]
  rw [hdiff, hone, hnot, hshift, hshift, BitVec.ushiftRight_xor_distrib] at htop
  have hzero := (BitVec.xor_zero.trans (BitVec.eq_of_toNat_eq htop) :
    ~~~ crcByte c 0 >>> 24 ^^^ 0#32 = _)
  exact absurd ((BitVec.xor_right_inj _).mp hzero) (by decide)

end Sysbench.Fileio
