import Sysbench.Database.Binds
import Sysbench.Options.Store

/-!
# Options/SizeText — sizes as text, and back

`sb_print_value_size` divides a size by 1024 as long as it can and prints one of the letters of
`sizemods` behind what is left; `sb_opt_to_size` reads such a text.  The bound of the first loop is
`sizeof(sizemods)`, which counts the terminator: one division too many is allowed, and a size that
takes it is printed with a NUL for its letter.
-/

namespace Sysbench.Options

open Database

/-- The array `sizemods`: the four letters, and the terminator. -/
def sizemods : List UInt8 := (CStr.lit "KMGT").bytes ++ [0]

/-- The loop of `sb_print_value_size`, which may divide `left` times more: `i` and `value` after it.
(A `double` divides such values exactly.) -/
def divideSize : (left : ℕ) → (i : ℕ) → (value : ℚ) → ℕ × ℚ
  | 0, i, value => (i, value)
  | left + 1, i, value =>
    if 1024 ≤ value then divideSize left (i + 1) (value / 1024) else (i, value)

/-- `sb_print_value_size`: the string it leaves in a buffer of `buflen` bytes.  `percentG` is the
conversion `%.5g`. -/
def sbPrintValueSize (percentG : ℚ → CStr) (buflen : ℕ) (value : ℚ) : CStr :=
  let r := divideSize sizemods.length 0 value
  let text := (percentG r.2).bytes ++ if 0 < r.1 then [sizemods.getD (r.1 - 1) 0] else []
  .ofBytes (text.take (buflen - 1))

/-- An option of type `SB_ARG_TYPE_SIZE` with one value. -/
def sizeOption (text : CStr) : Opt := ⟨⟨.size, [text], false⟩, .lit "size"⟩

/-! ## Reading digits -/

theorem isDigit_digitChar {d : ℕ} (h : d < 10) :
    isDigit d.digitChar.toUInt8 = true ∧ d.digitChar.toUInt8.toNat = d + 48 := by
  interval_cases d <;> decide

/-- **A number in decimal is read as that number**, whatever stands behind it. -/
theorem sizeDigits_decimalBytes {n : ℕ} (h : n < 2 ^ 64) (seen : Bool) (rest : List UInt8) :
    sizeDigits seen 0 (decimalBytes n ++ rest) = sizeDigits true n rest := by
  have hbytes : decimalBytes n = (Nat.toDigits 10 n).map Char.toUInt8 := by
    rw [decimalBytes, if_neg (by omega)]
    rfl
  rw [hbytes]
  clear hbytes
  induction n using Nat.strong_induction_on generalizing seen rest with
  | _ n ih =>
    rcases Nat.lt_or_ge n 10 with hlt | hge
    · obtain ⟨hdigit, hvalue⟩ := isDigit_digitChar hlt
      have hres : toU64 (((0 : ℕ) : ℤ) * 10 + (n.digitChar.toUInt8.toNat - 48 : ℤ)) = n := by
        rw [hvalue, toU64]
        omega
      rw [Nat.toDigits_of_lt_base hlt]
      simp only [List.map_cons, List.map_nil, List.cons_append, List.nil_append, sizeDigits,
        if_pos hdigit, hres]
    · have hmod : n % 10 < 10 := Nat.mod_lt n (by decide)
      obtain ⟨hdigit, hvalue⟩ := isDigit_digitChar hmod
      have hres : toU64 (((n / 10 : ℕ) : ℤ) * 10 + ((n % 10).digitChar.toUInt8.toNat - 48 : ℤ))
          = n := by
        rw [hvalue, toU64]
        omega
      rw [Nat.toDigits_of_base_le (by decide) hge, List.map_append, List.append_assoc,
        ih (n / 10) (by omega) (by omega)]
      simp only [List.map_cons, List.map_nil, List.cons_append, List.nil_append, sizeDigits,
        if_pos hdigit, hres]

/-! ## Printing -/

section Printing

variable {m : ℕ}

/-- **The loop takes as many powers of 1024 out of a size as it may.** -/
theorem divideSize_eq (hpos : 0 < m) (hlt : m < 1024) (left i k : ℕ) :
    divideSize left i (m * 1024 ^ k : ℕ)
      = (i + min left k, ((m * 1024 ^ (k - left) : ℕ) : ℚ)) := by
  induction left generalizing i k with
  | zero => simp [divideSize]
  | succ left ih =>
    cases k with
    | zero =>
      have hsmall : ¬ (1024 : ℚ) ≤ (m * 1024 ^ 0 : ℕ) := by
        rw [pow_zero, mul_one, not_le]
        exact_mod_cast hlt
      rw [divideSize, if_neg hsmall]
      simp
    | succ k =>
      have hnat : 1024 ≤ m * 1024 ^ (k + 1) := by
        rw [pow_succ, ← mul_assoc]
        exact Nat.le_mul_of_pos_left 1024 (Nat.mul_pos hpos (Nat.pow_pos (by decide)))
      have hlarge : (1024 : ℚ) ≤ (m * 1024 ^ (k + 1) : ℕ) := by exact_mod_cast hnat
      have hdiv : ((m * 1024 ^ (k + 1) : ℕ) : ℚ) / 1024 = (m * 1024 ^ k : ℕ) := by
        push_cast
        ring
      rw [divideSize, if_pos hlarge, hdiv, ih]
      congr 1
      · omega
      · congr 3
        omega

/-- What `%.5g` does with a whole number of at most five digits. -/
def PrintsDecimal (percentG : ℚ → CStr) : Prop := ∀ n : ℕ, n < 100000 → percentG n = percentD n

theorem length_decimalBytes_le {n : ℕ} (h : n < 100000) : (decimalBytes n).length ≤ 5 := by
  have hdigits : (Nat.toDigits 10 n).length ≤ 5 :=
    (Nat.length_toDigits_le_iff (by decide) (by decide)).mpr h
  rw [decimalBytes, if_neg (by omega), List.nil_append, List.length_map]
  exact hdigits

/-- The letters between which the two functions agree. -/
theorem sizemods_letter {k : ℕ} (hpos : 0 < k) (hle : k ≤ 4) :
    sizemods.getD (k - 1) 0 ≠ 0 ∧ isDigit (sizemods.getD (k - 1) 0) = false ∧
      sizeMod (sizemods.getD (k - 1) 0) = some (k - 1) := by
  interval_cases k <;> decide +kernel

variable {percentG : ℚ → CStr} {buflen k : ℕ}

/-- **What is printed**: the number that is left, and a letter for one to four divisions. -/
theorem sbPrintValueSize_bytes (hG : PrintsDecimal percentG) (hbuf : 7 ≤ buflen) (hpos : 0 < m)
    (hlt : m < 1024) (hleft : m * 1024 ^ (k - 5) < 100000) :
    (sbPrintValueSize percentG buflen (m * 1024 ^ k : ℕ)).bytes
      = decimalBytes (m * 1024 ^ (k - 5) : ℕ)
        ++ if 0 < k ∧ k ≤ 4 then [sizemods.getD (k - 1) 0] else [] := by
  have hnoNul := notMem_decimalBytes (z := (m * 1024 ^ (k - 5) : ℕ)) (c := 0) (by decide)
    (by decide)
  have hlen := length_decimalBytes_le hleft
  have hloop : divideSize sizemods.length 0 (m * 1024 ^ k : ℕ)
      = (min 5 k, ((m * 1024 ^ (k - 5) : ℕ) : ℚ)) := by
    have hlength : sizemods.length = 5 := by decide
    rw [hlength, divideSize_eq hpos hlt, zero_add]
  simp only [sbPrintValueSize, hloop, hG _ hleft, percentD_bytes]
  rw [List.take_of_length_le]
  · rcases Nat.eq_zero_or_pos k with rfl | hk
    · exact CStr.ofBytes_bytes (by simpa using hnoNul)
    · rw [if_pos (lt_min (by decide) hk)]
      by_cases hfour : k ≤ 4
      · rw [if_pos ⟨hk, hfour⟩, min_eq_right (by omega)]
        refine CStr.ofBytes_bytes fun hmem => ?_
        rcases List.mem_append.mp hmem with hmem | hmem
        · exact hnoNul hmem
        · exact (sizemods_letter hk hfour).1 (List.mem_singleton.mp hmem).symm
      · -- the fifth letter is the terminator
        rw [if_neg (fun h => hfour h.2), min_eq_left (by omega), List.append_nil]
        exact CStr.ofBytes_terminated hnoNul
  · rw [List.length_append]
    split_ifs
    · rw [List.length_singleton]
      omega
    · rw [List.length_nil]
      omega

/-! ## Reading it back -/

/-- A decimal number is read as it is. -/
theorem sbOptToSize_decimal {text : CStr} {n : ℕ} (h : text.bytes = decimalBytes n)
    (hn : n < 2 ^ 64) : sbOptToSize (sizeOption text) = n := by
  have hdigits : sizeDigits false 0 text.bytes = (n, none) := by
    rw [h, ← List.append_nil (decimalBytes _), sizeDigits_decimalBytes hn, sizeDigits]
  simp only [sbOptToSize, sizeOption, hdigits]

/-- A decimal number and a letter are read as a product. -/
theorem sbOptToSize_decimal_letter {text : CStr} {n : ℕ} (hpos : 0 < k) (hle : k ≤ 4)
    (h : text.bytes = decimalBytes n ++ [sizemods.getD (k - 1) 0]) (hsize : n * 1024 ^ k < 2 ^ 64) :
    sbOptToSize (sizeOption text) = n * 1024 ^ k := by
  obtain ⟨-, hdigit, hmod⟩ := sizemods_letter hpos hle
  have hn : n < 2 ^ 64 := (Nat.le_mul_of_pos_right n (Nat.pow_pos (by decide))).trans_lt hsize
  have hdigits : sizeDigits false 0 text.bytes = (n, some (sizemods.getD (k - 1) 0)) := by
    rw [h, sizeDigits_decimalBytes hn, sizeDigits, hdigit]
    rfl
  simp only [sbOptToSize, sizeOption, hdigits, hmod, Option.elim_some]
  rw [Nat.sub_add_cancel hpos, toU64_of_lt hsize]

/-- What five divisions leave of a size of 64 bits has at most five digits. -/
theorem left_lt_of_size_lt (hpos : 1 ≤ m) (hlt : m ≤ 1023) (hsize : m * 1024 ^ k < 2 ^ 64) :
    m * 1024 ^ (k - 5) < 100000 := by
  have hsix : k ≤ 6 := by
    by_contra hlarge
    have hpow : 1024 ^ 7 ≤ 1024 ^ k := Nat.pow_le_pow_right (by decide) (by omega)
    have hle : 1024 ^ k ≤ m * 1024 ^ k := Nat.le_mul_of_pos_left _ hpos
    omega
  rcases Nat.lt_or_ge 5 k with hk | hk
  · obtain rfl : k = 6 := by omega
    have hm : m < 16 := by
      refine Nat.lt_of_mul_lt_mul_right (a := 1024 ^ 6) (hsize.trans_eq ?_)
      norm_num
    calc m * 1024 ^ 1 ≤ 15 * 1024 ^ 1 := Nat.mul_le_mul_right _ (by omega)
      _ < 100000 := by norm_num
  · rw [Nat.sub_eq_zero_of_le hk, pow_zero, mul_one]
    omega

/-- **A size survives printing and parsing exactly when there is a letter for it**: the sizes from
`1024 ^ 5` on come back without their power of 1024, or with one of it left. -/
theorem sbOptToSize_sbPrintValueSize_iff (hG : PrintsDecimal percentG) (hbuf : 7 ≤ buflen)
    (hpos : 1 ≤ m) (hlt : m ≤ 1023) (hsize : m * 1024 ^ k < 2 ^ 64) :
    sbOptToSize (sizeOption (sbPrintValueSize percentG buflen (m * 1024 ^ k : ℕ))) = m * 1024 ^ k ↔
      k ≤ 4 := by
  have hleft := left_lt_of_size_lt hpos hlt hsize
  have hbytes := sbPrintValueSize_bytes hG hbuf hpos (Nat.lt_succ_of_le hlt) hleft
  by_cases hletter : 0 < k ∧ k ≤ 4
  · rw [if_pos hletter, Nat.sub_eq_zero_of_le (by omega), pow_zero, mul_one] at hbytes
    exact iff_of_true (sbOptToSize_decimal_letter hletter.1 hletter.2 hbytes hsize) hletter.2
  · -- no letter is printed, and what is left is the size only if nothing was divided
    rw [if_neg hletter, List.append_nil] at hbytes
    rw [sbOptToSize_decimal hbytes (hleft.trans (by norm_num)), Nat.mul_right_inj (by omega),
      Nat.pow_right_inj (by decide)]
    omega

end Printing

/-- `%.5g` on the values that are printed here: whole numbers in decimal. -/
def percentGWhole (value : ℚ) : CStr := percentD value.num

theorem printsDecimal_percentGWhole : PrintsDecimal percentGWhole := fun _ _ => rfl

/-- A tebibyte, in the buffer of a caller. -/
theorem sbOptToSize_sbPrintValueSize_tebi :
    sbOptToSize (sizeOption (sbPrintValueSize percentGWhole 16 (1 * 1024 ^ 4 : ℕ))) = 1 * 1024 ^ 4 ↔
      4 ≤ 4 :=
  sbOptToSize_sbPrintValueSize_iff printsDecimal_percentGWhole (by decide) (by decide) (by decide)
    (by decide)

/-- **A pebibyte** is printed as `1`, with a NUL behind it, and read as one byte. -/
theorem sbOptToSize_sbPrintValueSize_pebi :
    sbPrintValueSize percentGWhole 16 (1 * 1024 ^ 5 : ℕ) = .lit "1" ∧
      sbOptToSize (sizeOption (sbPrintValueSize percentGWhole 16 (1 * 1024 ^ 5 : ℕ))) = 1 ∧
      sbOptToSize (sizeOption (sbPrintValueSize percentGWhole 16 (1 * 1024 ^ 5 : ℕ)))
        ≠ 1 * 1024 ^ 5 := by
  decide +kernel

end Sysbench.Options
