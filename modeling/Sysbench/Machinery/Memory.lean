import Mathlib.Tactic

/-!
# Machinery/Memory — bytes, stores and little-endian numbers

A stretch of memory gives each address a byte; a piece of code that writes to it is the list of its
stores, in order, so that what it wrote and where are both there to speak of.  A number in memory is
its bytes, the lowest first.
-/

namespace Sysbench

/-- `unsigned char`. -/
abbrev Byte : Type := BitVec 8

/-- The bytes of a stretch of memory. -/
abbrev Memory : Type := ℕ → Byte

namespace Memory

variable (m : Memory)

/-- Memory after a list of stores. -/
def store (stores : List (ℕ × Byte)) : Memory :=
  stores.foldl (fun m w => Function.update m w.1 w.2) m

/-- The `n` bytes from address `i`. -/
def bytes (i n : ℕ) : List Byte := (List.range n).map fun k => m (i + k)

/-- The number in the `n` bytes from address `i`. -/
def load : (n i : ℕ) → ℕ
  | 0, _ => 0
  | n + 1, i => (m i).toNat + 256 * load n (i + 1)

/-- The stores of the low `n` bytes of `v`, from address `i`. -/
def leStores (n i v : ℕ) : List (ℕ × Byte) :=
  (List.range n).map fun k => (i + k, BitVec.ofNat 8 (v / 256 ^ k))

variable {m}

/-- **Stores to `n` addresses in a row**, one each. -/
theorem store_run (f : ℕ → Byte) (i n x : ℕ) :
    m.store ((List.range n).map fun k => (i + k, f k)) x
      = if i ≤ x ∧ x < i + n then f (x - i) else m x := by
  induction n with
  | zero => rw [if_neg (by omega)]; rfl
  | succ n ih =>
    simp only [store, List.range_succ, List.map_append, List.foldl_append, List.map_cons,
      List.map_nil, List.foldl_cons, List.foldl_nil]
    rcases eq_or_ne x (i + n) with rfl | hne
    · rw [Function.update_self, if_pos (by omega), Nat.add_sub_cancel_left]
    · rw [Function.update_of_ne hne]
      refine ih.trans ?_
      have : i ≤ x ∧ x < i + (n + 1) ↔ i ≤ x ∧ x < i + n := by omega
      simp only [this]

/-- What was copied is there to read. -/
theorem bytes_store_run (f : Memory) (i n : ℕ) :
    (m.store ((List.range n).map fun k => (i + k, f k))).bytes i n = f.bytes 0 n := by
  refine List.map_congr_left fun k hk => ?_
  have hk := List.mem_range.mp hk
  rw [store_run, if_pos (by omega), Nat.add_sub_cancel_left, zero_add]

/-- Stores to the addresses below `n`, one each. -/
theorem store_range (f : ℕ → Byte) (n x : ℕ) :
    m.store ((List.range n).map fun i => (i, f i)) x = if x < n then f x else m x := by
  simpa using store_run (m := m) f 0 n x

theorem store_append (stores stores' : List (ℕ × Byte)) :
    m.store (stores ++ stores') = (m.store stores).store stores' := List.foldl_append

/-- The stores of a number change its own bytes and no others. -/
theorem store_leStores (n i v x : ℕ) :
    m.store (leStores n i v) x
      = if i ≤ x ∧ x < i + n then BitVec.ofNat 8 (v / 256 ^ (x - i)) else m x :=
  store_run (fun k => BitVec.ofNat 8 (v / 256 ^ k)) i n x

theorem load_congr {m' : Memory} {n i i' : ℕ} (h : ∀ k < n, m (i + k) = m' (i' + k)) :
    m.load n i = m'.load n i' := by
  induction n generalizing i i' with
  | zero => rfl
  | succ n ih =>
    have hfirst : m i = m' i' := h 0 (Nat.succ_pos n)
    rw [load, load, hfirst, ih fun k hk => ?_]
    rw [add_assoc, add_comm 1 k, add_assoc, add_comm 1 k]
    exact h (k + 1) (by omega)

/-- **A number that was stored byte by byte.** -/
theorem load_of_bytes {n i v : ℕ} (h : ∀ k < n, m (i + k) = BitVec.ofNat 8 (v / 256 ^ k)) :
    m.load n i = v % 256 ^ n := by
  induction n generalizing i v with
  | zero => simp [load, Nat.mod_one]
  | succ n ih =>
    have hrest : m.load n (i + 1) = v / 256 % 256 ^ n := ih fun k hk => by
      rw [add_assoc, add_comm 1 k, h (k + 1) (by omega), pow_succ', Nat.div_div_eq_div_mul]
    have hfirst := h 0 (Nat.succ_pos n)
    rw [add_zero, pow_zero, Nat.div_one] at hfirst
    have hsplit : v % 256 ^ (n + 1) = v % 256 + 256 * (v / 256 % 256 ^ n) := by
      rw [pow_succ', Nat.mod_mul]
    rw [load, hrest, hfirst, hsplit, BitVec.toNat_ofNat]

/-- A number that was stored is there to load. -/
theorem load_store_leStores (n i v : ℕ) : (m.store (leStores n i v)).load n i = v % 256 ^ n :=
  load_of_bytes fun k hk => by
    rw [store_leStores, if_pos (by omega), Nat.add_sub_cancel_left]

/-- The stores of a number elsewhere are not seen. -/
theorem load_store_of_disjoint {n i n' i' : ℕ} (v : ℕ) (h : i' + n' ≤ i ∨ i + n ≤ i') :
    (m.store (leStores n i v)).load n' i' = m.load n' i' :=
  load_congr fun k hk => by rw [store_leStores, if_neg (by omega)]

theorem bytes_store_of_le {n i n' : ℕ} (v : ℕ) (h : n' ≤ i) :
    (m.store (leStores n i v)).bytes 0 n' = m.bytes 0 n' := by
  refine List.map_congr_left fun k hk => ?_
  have hk := List.mem_range.mp hk
  rw [store_leStores, if_neg (by omega)]

/-- The bytes of a number in memory. -/
theorem toNat_of_load {n i k : ℕ} (hk : k < n) :
    (m (i + k)).toNat = m.load n i / 256 ^ k % 256 := by
  induction n generalizing i k with
  | zero => omega
  | succ n ih =>
    have hb := (m i).isLt
    cases k with
    | zero => rw [load, pow_zero, Nat.div_one, add_zero]; omega
    | succ k =>
      rw [load, pow_succ', ← Nat.div_div_eq_div_mul,
        show ((m i).toNat + 256 * m.load n (i + 1)) / 256 = m.load n (i + 1) by omega,
        ← ih (by omega)]
      congr 2
      omega

end Memory

end Sysbench
