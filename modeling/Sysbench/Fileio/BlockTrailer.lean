import Sysbench.Fileio.Checksums

/-!
# Fileio/BlockTrailer — what the trailer of a block says, whatever the checksum function

`file_fill_buffer` finds the place of the trailer by counting in an `unsigned int` up to a `size_t`
and stores through `int` and `long`; `file_validate_buffer` computes the place as an `unsigned int`
and loads through `unsigned int` and `size_t`.  None of it depends on how the checksum is computed,
so here `crc32` is any function of the bytes, its result cut to 32 bits on both sides.

**Round trip**: a filled block is valid at the offset it was filled with and at no other
(`fileValidateBufferWith_filled`).
-/

namespace Sysbench.Fileio

variable {crc : List Byte → ℕ} {fuel : ℕ} {draw : ℕ → Byte} {buf m : Memory} {cap len offset : ℕ}

/-- `file_fill_buffer` with `crc` for `crc32`: its stores, and whether it returns. -/
def fileFillBufferWith (crc : List Byte → ℕ) (fuel : ℕ) (draw : ℕ → Byte) (buf : Memory)
    (len offset : ℕ) : List (ℕ × Byte) × Bool :=
  match fillLoop draw (toU64 (len - trailerLength)) fuel 0 with
  | (stores, none) => (stores, false)
  | (stores, some i) =>
    let checksum : ℤ := toI32 (crc ((buf.store stores).bytes 0 (toU32 (len - trailerLength))))
    (stores ++ Memory.leStores 4 i (toU32 checksum)
      ++ Memory.leStores 8 (i + 4) (toU64 (toI64 offset)), true)

/-- `file_validate_buffer` with `crc` for `crc32`, on a buffer of `cap` bytes. -/
def fileValidateBufferWith (crc : List Byte → ℕ) (cap : ℕ) (buf : Memory) (len offset : ℕ) :
    Verdict :=
  let csOffset := toU32 (len - trailerLength)
  if cap < csOffset + trailerLength then .outside
  else
    let checksum := toU32 (crc (buf.bytes 0 csOffset))
    if checksum ≠ buf.load 4 csOffset then .checksumMismatch checksum (buf.load 4 csOffset)
    else if offset ≠ buf.load 8 (csOffset + 4) then
      .offsetMismatch offset (buf.load 8 (csOffset + 4))
    else .passed

/-- What `file_validate_buffer` returns; nothing is said of a call that has looked outside of the
buffer. -/
def Verdict.returned : Verdict → Option ℤ
  | .passed => some 0
  | .checksumMismatch _ _ => some 1
  | .offsetMismatch _ _ => some 1
  | .outside => none

theorem Verdict.returned_eq_zero {v : Verdict} : v.returned = some 0 ↔ v = .passed := by
  cases v <;> simp [returned]

/-! ## The functions of the test are these, at `crc32` -/

/-- `crc32(0, …)` as a number. -/
def zlibCrc (bytes : List Byte) : ℕ := (crc32 0 bytes).toNat

theorem toU32_zlibCrc (bytes : List Byte) : toU32 (zlibCrc bytes) = (crc32 0 bytes).toNat :=
  toU32_of_lt (BitVec.isLt _)

theorem fileFillBuffer_eq_with (hoff : offset < 2 ^ 64) :
    fileFillBuffer fuel draw buf len offset
      = fileFillBufferWith zlibCrc fuel draw buf len offset := by
  unfold fileFillBuffer fileFillBufferWith
  rcases fillLoop draw (toU64 (len - trailerLength)) fuel 0 with ⟨stores, - | i⟩
  · rfl
  · dsimp only
    rw [toU32_toI32, toU32_zlibCrc, toU64_toI64, toU64_of_lt hoff]

theorem fileValidateBuffer_eq_with :
    fileValidateBuffer cap buf len offset = fileValidateBufferWith zlibCrc cap buf len offset := by
  unfold fileValidateBuffer fileValidateBufferWith
  dsimp only
  rw [toU32_zlibCrc]

/-! ## The place of the trailer -/

/-- **The stores of `file_fill_buffer`**, in order: the random bytes, the checksum, the offset. -/
theorem fileFillBufferWith_eq (hlo : 12 ≤ len) (hhi : len < 2 ^ 32) (hfuel : len ≤ fuel)
    (hoff : offset < 2 ^ 64) :
    fileFillBufferWith crc fuel draw buf len offset
      = (((List.range (len - 12)).map fun k => (k, draw k))
          ++ Memory.leStores 4 (len - 12)
            (toU32 (crc ((buf.store ((List.range (len - 12)).map fun k => (k, draw k))).bytes 0
              (len - 12))))
          ++ Memory.leStores 8 (len - 12 + 4) offset, true) := by
  rw [fileFillBufferWith, toU64_sub hlo hhi, toU32_sub hlo hhi,
    fillLoop_eq (by omega) (Nat.zero_le _) (by omega), Nat.sub_zero, ← List.range_eq_range']
  dsimp only
  rw [toU32_toI32, toU64_toI64, toU64_of_lt hoff]

theorem map_fst_leStores (n i v : ℕ) :
    (Memory.leStores n i v).map Prod.fst = List.range' i n := by
  rw [Memory.leStores, List.map_map, List.range'_eq_map_range]
  rfl

/-- **It writes the indices below the length, each once and in order.** -/
theorem fileFillBufferWith_indices (hlo : 12 ≤ len) (hhi : len < 2 ^ 32) (hfuel : len ≤ fuel)
    (hoff : offset < 2 ^ 64) :
    (fileFillBufferWith crc fuel draw buf len offset).1.map Prod.fst = List.range len := by
  obtain ⟨n, rfl⟩ := Nat.exists_eq_add_of_le' hlo
  rw [fileFillBufferWith_eq hlo hhi hfuel hoff, Nat.add_sub_cancel]
  have hrandom : ((List.range n).map fun k => (k, draw k)).map Prod.fst = List.range' 0 n := by
    rw [List.map_map, ← List.range_eq_range']
    exact List.map_id _
  rw [List.map_append, List.map_append, map_fst_leStores, map_fst_leStores, hrandom,
    List.range_eq_range', show n + 12 = n + 4 + 8 by rfl, ← List.range'_append_1,
    ← List.range'_append_1, zero_add, zero_add]

/-- **When a buffer is valid**: its two trailer words are the checksum of the bytes before them and
the offset. -/
theorem fileValidateBufferWith_passed (hlo : 12 ≤ len) (hhi : len < 2 ^ 32) (hcap : len ≤ cap) :
    fileValidateBufferWith crc cap m len offset = .passed ↔
      m.load 4 (len - 12) = crc (m.bytes 0 (len - 12)) % 2 ^ 32 ∧ m.load 8 (len - 8) = offset := by
  have hcrc : toU32 (crc (m.bytes 0 (len - 12))) = crc (m.bytes 0 (len - 12)) % 2 ^ 32 := by
    unfold toU32
    omega
  have hplace : len - 12 + 4 = len - 8 := by omega
  rw [fileValidateBufferWith, toU32_sub hlo hhi]
  dsimp only
  rw [if_neg (by unfold trailerLength; omega), hcrc, hplace]
  split_ifs with hsum hoffset
  · exact iff_of_false (by simp) fun h => hsum h.1.symm
  · exact iff_of_false (by simp) fun h => hoffset h.2.symm
  · exact iff_of_true rfl ⟨(not_ne_iff.mp hsum).symm, (not_ne_iff.mp hoffset).symm⟩

/-! ## The round trip -/

/-- **A filled block is valid at its own offset and at no other.** -/
theorem fileValidateBufferWith_filled (crc : List Byte → ℕ) (draw : ℕ → Byte) (buf : Memory)
    {offset' : ℕ} (hlo : 12 ≤ len) (hhi : len < 2 ^ 32) (hfuel : len ≤ fuel) (hcap : len ≤ cap)
    (hoff : offset < 2 ^ 64) :
    fileValidateBufferWith crc cap
        (buf.store (fileFillBufferWith crc fuel draw buf len offset).1) len offset' = .passed ↔
      offset' = offset := by
  obtain ⟨n, rfl⟩ := Nat.exists_eq_add_of_le' hlo
  rw [fileValidateBufferWith_passed hlo hhi hcap, fileFillBufferWith_eq hlo hhi hfuel hoff,
    Nat.add_sub_cancel, show n + 12 - 8 = n + 4 by rfl]
  dsimp only
  set filled := buf.store ((List.range n).map fun k => (k, draw k)) with hfilled
  have hcrc : toU32 (crc (filled.bytes 0 n)) = crc (filled.bytes 0 n) % 2 ^ 32 := by
    unfold toU32
    omega
  rw [Memory.store_append, Memory.store_append, ← hfilled, Memory.load_store_leStores,
    Memory.load_store_of_disjoint _ (.inl le_rfl), Memory.load_store_leStores,
    Memory.bytes_store_of_le _ (Nat.le_add_right n 4), Memory.bytes_store_of_le _ le_rfl, hcrc,
    Nat.mod_eq_of_lt (show offset < 256 ^ 8 by simpa using hoff)]
  constructor
  · exact fun h => h.2.symm
  · rintro rfl
    exact ⟨by simp, rfl⟩

/-- **The trailer says the offset and the checksum, and nothing else.**  Filling writes the indices
below the length, so nothing past them; what was filled is valid at its own offset only; and any
buffer is valid exactly when its trailer words are right. -/
theorem fileFillBuffer_validate (crc : List Byte → ℕ) (draw : ℕ → Byte) (buf m : Memory)
    {fuel cap len o : ℕ} (o' : ℕ) (hlo : 12 ≤ len) (hhi : len < 2 ^ 32) (hfuel : len ≤ fuel)
    (hcap : len ≤ cap) (ho : o < 2 ^ 64) :
    (fileFillBufferWith crc fuel draw buf len o).2 = true ∧
      (fileFillBufferWith crc fuel draw buf len o).1.map Prod.fst = List.range len ∧
      ((fileValidateBufferWith crc cap
          (buf.store (fileFillBufferWith crc fuel draw buf len o).1) len o').returned = some 0 ↔
        o' = o) ∧
      ((fileValidateBufferWith crc cap m len o').returned = some 0 ↔
        m.load 4 (len - 12) = crc (m.bytes 0 (len - 12)) % 2 ^ 32 ∧ m.load 8 (len - 8) = o') := by
  refine ⟨?_, fileFillBufferWith_indices hlo hhi hfuel ho, ?_, ?_⟩
  · rw [fileFillBufferWith_eq hlo hhi hfuel ho]
  · rw [Verdict.returned_eq_zero, fileValidateBufferWith_filled crc draw buf hlo hhi hfuel hcap ho]
  · rw [Verdict.returned_eq_zero, fileValidateBufferWith_passed hlo hhi hcap]

/-- A block of sixteen bytes at an offset beyond 2 ^ 32, with a checksum whose top bit is set. -/
theorem fileFillBuffer_validate_sixteen :
    (fileValidateBufferWith (fun _ => 2 ^ 31 + 5) 16 (Memory.store (fun _ => 0)
        (fileFillBufferWith (fun _ => 2 ^ 31 + 5) 16 (fun _ => 7) (fun _ => 0) 16 (2 ^ 40)).1)
      16 (2 ^ 40)).returned = some 0 := by
  have hall := fileFillBuffer_validate (fun _ => 2 ^ 31 + 5) (fun _ => 7) (fun _ => 0) (fun _ => 0)
    (2 ^ 40) (show 12 ≤ 16 by decide) (by decide) (le_refl 16) (le_refl 16)
    (show 2 ^ 40 < 2 ^ 64 by decide)
  exact hall.2.2.1.mpr rfl

end Sysbench.Fileio
