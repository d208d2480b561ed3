import Mathlib.Data.List.TakeWhile
import Mathlib.Tactic

/-!
# Machinery/CString — NUL-terminated text in a heap block of fixed size

A **C string** is its bytes before the terminator; a **block** is what `malloc` returns, a list of
exactly as many bytes as were asked for.  A store that leaves the block has no meaning in C, so it
is a **fault** here and not a longer list.  Text is built up in place: the proofs never look at a
block but only at what it begins with (`List.IsPrefix`), and a store right behind a known beginning
extends it.
-/

namespace Sysbench

/-- The text a `const char *` argument points to: any bytes but the terminator. -/
structure CStr where
  bytes : List UInt8
  noNul : 0 ∉ bytes
  deriving DecidableEq

namespace CStr

/-- `strlen`. -/
def length (s : CStr) : ℕ := s.bytes.length

theorem zero_notMem_takeWhile (bs : List UInt8) : 0 ∉ bs.takeWhile (· ≠ 0) := by
  intro h
  simpa using List.mem_takeWhile_imp h

/-- The string that begins a run of bytes: it ends at the first terminator, if there is one. -/
def ofBytes (bs : List UInt8) : CStr := ⟨bs.takeWhile (· ≠ 0), zero_notMem_takeWhile bs⟩

/-- A string of the source text. -/
def lit (s : String) : CStr := ofBytes (s.toList.map Char.toUInt8)

@[ext] theorem ext {s t : CStr} (h : s.bytes = t.bytes) : s = t := by
  cases s
  cases t
  congr

theorem ofBytes_bytes {bs : List UInt8} (h : 0 ∉ bs) : (ofBytes bs).bytes = bs := by
  refine List.takeWhile_eq_self_iff.mpr fun b hb => ?_
  have hne : b ≠ 0 := fun hb0 => h (hb0 ▸ hb)
  simpa using hne

/-- A string up to its terminator. -/
theorem ofBytes_terminated {bs : List UInt8} (h : 0 ∉ bs) : (ofBytes (bs ++ [0])).bytes = bs := by
  have hne : ∀ b ∈ bs, b ≠ 0 := fun b hb hb0 => h (hb0 ▸ hb)
  have hwhile : (bs ++ [0]).takeWhile (· ≠ 0) = bs := by
    rw [List.takeWhile_append_of_pos (by simpa using hne)]
    simp
  exact hwhile

@[simp] theorem ofBytes_self (s : CStr) : ofBytes s.bytes = s := ext (ofBytes_bytes s.noNul)

theorem length_padded (s : CStr) (n : ℕ) :
    (s.bytes.take n ++ List.replicate (n - s.length) 0).length = n := by
  rw [List.length_append, List.length_take, List.length_replicate]
  simp only [length]
  omega

/-- What `strncpy(m, s, n)` stores: the string cut to `n` bytes, or with terminators behind it. -/
def padded (s : CStr) (n : ℕ) : { bs : List UInt8 // bs.length = n } :=
  ⟨s.bytes.take n ++ List.replicate (n - s.length) 0, length_padded s n⟩

/-- A string of `n` equal characters. -/
def replicate (n : ℕ) : CStr := ⟨List.replicate n 40, by simp [List.mem_replicate]⟩

@[simp] theorem length_replicate (n : ℕ) : (replicate n).length = n := by
  simp [length, replicate]

/-- What `snprintf(…, n, "%s", s)` stores: the string cut to what leaves room for the terminator. -/
def cut (s : CStr) (n : ℕ) : List UInt8 := if n = 0 then [] else s.bytes.take (n - 1) ++ [0]

theorem length_cut_le (s : CStr) (n : ℕ) : (s.cut n).length ≤ n := by
  unfold cut
  split_ifs
  · exact Nat.zero_le n
  · rw [List.length_append, List.length_take, List.length_singleton]
    omega

theorem prefix_cut {s : CStr} {n : ℕ} (h : s.length < n) : s.bytes <+: s.cut n := by
  rw [cut, if_neg (by omega), List.take_of_length_le (Nat.le_sub_one_of_lt h)]
  exact List.prefix_append _ _

end CStr

/-- How a call leaves the defined behaviour of C. -/
inductive Fault
  | nullPointer
  | overrun
  deriving DecidableEq, Repr

/-- A heap block of `n` bytes. -/
def Block (n : ℕ) : Type := { m : List UInt8 // m.length = n }

namespace Block

variable {n : ℕ}

/-- A block as `calloc` returns it. -/
def zero (n : ℕ) : Block n := ⟨List.replicate n 0, List.length_replicate⟩

/-- Store bytes at index `i`. -/
def store (m : Block n) (i : ℕ) (bs : List UInt8) : Except Fault (Block n) :=
  if h : i + bs.length ≤ n then
    .ok ⟨m.1.take i ++ bs ++ m.1.drop (i + bs.length), by
      have := m.2
      simp only [List.length_append, List.length_take, List.length_drop]
      omega⟩
  else .error .overrun

/-- `strcpy(m + i, s)`. -/
def strcpy (m : Block n) (i : ℕ) (s : CStr) : Except Fault (Block n) :=
  m.store i (s.bytes ++ [0])

/-- `strncpy(m, s, n)` into the whole of the block. -/
def strncpy (_ : Block n) (s : CStr) : Block n := s.padded n

theorem length_snprintf (m : Block n) (s : CStr) :
    ((s.bytes.take (n - 1) ++ [0]).take n ++ m.1.drop (s.bytes.take (n - 1) ++ [0]).length).length
      = n := by
  have hm := m.2
  simp only [List.length_append, List.length_take, List.length_drop, List.length_singleton]
  omega

/-- `snprintf(m, n, "%s", s)`: the text is cut to what leaves room for the terminator. -/
def snprintf (m : Block n) (s : CStr) : Block n :=
  ⟨(s.bytes.take (n - 1) ++ [0]).take n ++ m.1.drop (s.bytes.take (n - 1) ++ [0]).length,
    length_snprintf m s⟩

/-- The block holds this string. -/
def Holds (m : Block n) (s : CStr) : Prop := s.bytes ++ [0] <+: m.1

theorem holds_strncpy (m : Block n) {s : CStr} (h : s.length < n) : (m.strncpy s).Holds s := by
  have hpos : n - s.length = (n - s.length - 1) + 1 := by omega
  refine ⟨List.replicate (n - s.length - 1) 0, ?_⟩
  have htake : s.bytes.take n = s.bytes := List.take_of_length_le h.le
  dsimp only [strncpy, CStr.padded]
  rw [htake, hpos, List.replicate_succ, List.append_assoc]
  simp

theorem holds_snprintf (m : Block n) {s : CStr} (h : s.length < n) : (m.snprintf s).Holds s := by
  have htake : s.bytes.take (n - 1) = s.bytes := List.take_of_length_le (Nat.le_sub_one_of_lt h)
  have hall : (s.bytes ++ [0]).take n = s.bytes ++ [0] :=
    List.take_of_length_le (by rw [List.length_append]; exact h)
  refine ⟨m.1.drop (s.bytes ++ [0]).length, ?_⟩
  dsimp only [snprintf]
  rw [htake, hall]

/-- The text found at the start of the block. -/
def text (m : Block n) : List UInt8 := m.1.takeWhile (· ≠ 0)

/-- **A store behind a known beginning extends it.** -/
theorem store_prefix {m : Block n} {bs new : List UInt8} (h : bs <+: m.1)
    (hn : bs.length + new.length ≤ n) :
    ∃ m', m.store bs.length new = .ok m' ∧ bs ++ new <+: m'.1 := by
  refine ⟨_, dif_pos hn, ?_⟩
  obtain ⟨t, ht⟩ := h
  exact ⟨m.1.drop (bs.length + new.length), by simp [← ht]⟩

theorem length_realloc (m : Block n) (n' : ℕ) (fresh : ℕ → UInt8) :
    ((m.1 ++ (List.range (n' - n)).map fresh).take n').length = n' := by
  have hm := m.2
  simp only [List.length_take, List.length_append, List.length_map, List.length_range]
  omega

/-- `realloc(m, n')`, with what stands in the memory that is new. -/
def realloc (m : Block n) (n' : ℕ) (fresh : ℕ → UInt8) : Block n' :=
  ⟨(m.1 ++ (List.range (n' - n)).map fresh).take n', length_realloc m n' fresh⟩

theorem prefix_realloc (m : Block n) {n' : ℕ} (h : n ≤ n') (fresh : ℕ → UInt8) :
    m.1 <+: (m.realloc n' fresh).1 := by
  have hm := m.2
  dsimp only [realloc]
  rw [List.take_append, List.take_of_length_le (by omega)]
  exact List.prefix_append _ _

/-- A store that does not fit is an overrun. -/
theorem store_overrun {m : Block n} {i : ℕ} {bs : List UInt8} (h : n < i + bs.length) :
    m.store i bs = .error .overrun :=
  dif_neg (by omega)

/-- `strcpy` of `s` behind `bs` leaves the text `bs ++ s`, terminator included. -/
theorem strcpy_prefix {m : Block n} {bs : List UInt8} {s : CStr} (h : bs <+: m.1)
    (hn : bs.length + s.length + 1 ≤ n) :
    ∃ m', m.strcpy bs.length s = .ok m' ∧ bs ++ s.bytes ++ [0] <+: m'.1 := by
  have hlen : bs.length + (s.bytes ++ [0]).length ≤ n := by
    simp only [List.length_append, List.length_singleton]
    exact hn
  obtain ⟨m', hm, hp⟩ := store_prefix h hlen
  exact ⟨m', hm, by simpa using hp⟩

/-- The text of a block that begins with a terminated string is that string. -/
theorem text_eq {m : Block n} {bs : List UInt8} (h : bs ++ [0] <+: m.1) (h0 : 0 ∉ bs) :
    m.text = bs := by
  obtain ⟨t, ht⟩ := h
  have hbs : ∀ b ∈ bs, b ≠ 0 := fun b hb hb0 => h0 (hb0 ▸ hb)
  rw [text, ← ht, List.append_assoc, List.takeWhile_append_of_pos (by simpa using hbs)]
  simp

end Block

end Sysbench
