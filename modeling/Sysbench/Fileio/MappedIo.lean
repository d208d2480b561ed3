import Sysbench.Machinery.CString
import Sysbench.Machinery.MachineInt
import Sysbench.Machinery.Memory

/-!
# Fileio/MappedIo — reading and writing through a mapping, on 32 bits

Where `size_t` has 32 bits, `file_pread` and `file_pwrite` map the pages of each request, copy, and
unmap them.  The offset of a request is a `long long`, but the mask that rounds it down to a page is
an `unsigned long`: it has 32 bits and is extended by zeros, so the rounded offset loses what stands
above them, and the pointer into the mapping loses it again.  Both functions work on the file offset
**modulo `2 ^ 32`**.
-/

namespace Sysbench.Fileio

/-! ## Mappings -/

/-- A region of memory, and where it begins in the file. -/
structure Mapping where
  start : ℕ
  len : ℕ
  fileOffset : ℕ

/-- Where the kernel places a mapping of each length, in an address space of 32 bits; `none` is
`MAP_FAILED`. -/
structure AddressSpace where
  place : ℕ → Option ℕ
  fits : ∀ {len start}, place len = some start → start + len ≤ 2 ^ 32

/-- `mmap`. -/
def mmap (space : AddressSpace) (len fileOffset : ℕ) : Option Mapping :=
  (space.place len).map fun start => ⟨start, len, fileOffset⟩

/-- Where in the file a `memcpy` of `count` bytes at the address `ptr` begins. -/
def Mapping.copyOffset (m : Mapping) (ptr count : ℕ) : Except Fault ℕ :=
  if m.start ≤ ptr ∧ ptr + count ≤ m.start + m.len then .ok (m.fileOffset + (ptr - m.start))
  else .error .overrun

/-- The mapping that was made, and what became of the request. -/
structure Mapped (α : Type) where
  mapping : Mapping
  result : α

/-- `file_page_mask`, an `unsigned long`. -/
def filePageMask (granularity : ℕ) : ℕ := 2 ^ 32 - 1 - (granularity - 1)

variable (space : AddressSpace) (granularity : ℕ) (file : Memory)

/-- `file_pread` in the mode `mmap`: the bytes it copies.  `page_addr` and `page_offset` are
`long long`; the second is converted to `size_t` in the call of `mmap` and in the pointer. -/
def filePread (count offset : ℕ) : Except Fault (Option (Mapped (List Byte))) :=
  let pageAddr := offset &&& filePageMask granularity
  let pageOffset := offset - pageAddr
  match mmap space (toU32 (count + pageOffset : ℕ)) pageAddr with
  | none => .ok none
  | some m => do
    let i ← m.copyOffset (toU32 (m.start + pageOffset : ℕ)) count
    return some ⟨m, file.bytes i count⟩

/-- `file_pwrite` in the mode `mmap`: the file after it.  `page_addr` and `page_offset` are
`size_t`. -/
def filePwrite (buf : Memory) (count offset : ℕ) : Except Fault (Option (Mapped Memory)) :=
  let pageAddr := toU32 (offset &&& filePageMask granularity : ℕ)
  let pageOffset := toU32 (offset - pageAddr)
  match mmap space (toU32 (count + pageOffset : ℕ)) pageAddr with
  | none => .ok none
  | some m => do
    let i ← m.copyOffset (toU32 (m.start + pageOffset : ℕ)) count
    return some ⟨m, file.store ((List.range count).map fun k => (i + k, buf k))⟩

/-! ## The page and the offset in it -/

/-- **The mask of 32 bits** takes an offset to the page of its low 32 bits. -/
theorem and_filePageMask {p : ℕ} (hp : p ≤ 32) (offset : ℕ) :
    offset &&& filePageMask (2 ^ p) = offset % 2 ^ 32 / 2 ^ p * 2 ^ p := by
  have hmask : filePageMask (2 ^ p) = (2 ^ (32 - p) - 1) <<< p := by
    have hpow : 2 ^ (32 - p) * 2 ^ p = 2 ^ 32 := by rw [← pow_add, Nat.sub_add_cancel hp]
    have hpos : 0 < 2 ^ p := Nat.two_pow_pos p
    rw [Nat.shiftLeft_eq, Nat.sub_mul, hpow, one_mul, filePageMask]
    omega
  rw [hmask, ← Nat.shiftRight_eq_div_pow, ← Nat.shiftLeft_eq]
  refine Nat.eq_of_testBit_eq fun i => ?_
  rw [Nat.testBit_and, Nat.testBit_shiftLeft, Nat.testBit_shiftLeft, Nat.testBit_two_pow_sub_one,
    Nat.testBit_shiftRight, Nat.testBit_mod_two_pow]
  by_cases hi : p ≤ i
  · have hsub : p + (i - p) = i := by omega
    have hbound : i - p < 32 - p ↔ i < 32 := by omega
    simp [hi, hsub, hbound, Bool.and_comm]
  · simp [hi]

/-- The page of an offset, and what is left of its low 32 bits. -/
theorem exists_page {p : ℕ} (hp : p < 32) (offset : ℕ) :
    ∃ page, offset &&& filePageMask (2 ^ p) = page ∧ page + offset % 2 ^ p = offset % 2 ^ 32 ∧
      page % 2 ^ p = 0 ∧ offset % 2 ^ p < 2 ^ 31 := by
  have hlow : offset % 2 ^ 32 % 2 ^ p = offset % 2 ^ p :=
    Nat.mod_mod_of_dvd offset (Nat.pow_dvd_pow 2 hp.le)
  have hlt : offset % 2 ^ p < 2 ^ p := Nat.mod_lt _ (Nat.two_pow_pos p)
  have hpow : 2 ^ p ≤ 2 ^ 31 := Nat.pow_le_pow_right (by decide) (by omega)
  refine ⟨_, and_filePageMask hp.le offset, ?_, Nat.mul_mod_left _ _, hlt.trans_le hpow⟩
  rw [← hlow]
  exact Nat.div_add_mod' _ _

section Requests

variable {space granularity} {p count offset start : ℕ}

/-- A copy at a page's inner offset. -/
theorem copyOffset_page (start inner page count : ℕ) :
    Mapping.copyOffset ⟨start, count + inner, page⟩ (start + inner) count = .ok (page + inner) := by
  rw [Mapping.copyOffset, if_pos (by simp only; omega), Nat.add_sub_cancel_left]

/-- **A read copies the bytes at the low 32 bits of its offset.** -/
theorem filePread_eq (hp : p < 32) (hpos : 0 < count) (hcount : count < 2 ^ 31)
    (hplace : space.place (count + offset % 2 ^ p) = some start) :
    ∃ m : Mapping, m.fileOffset % 2 ^ p = 0 ∧ m.fileOffset ≤ offset ∧
      filePread space (2 ^ p) file count offset
        = .ok (some ⟨m, file.bytes (offset % 2 ^ 32) count⟩) := by
  obtain ⟨page, hpage, hsplit, halign, hinner⟩ := exists_page hp offset
  have hfits := space.fits hplace
  have hlen : toU32 (count + (offset - page) : ℕ) = count + offset % 2 ^ p := by
    unfold toU32
    omega
  have hptr : toU32 (start + (offset - page) : ℕ) = start + offset % 2 ^ p := by
    unfold toU32
    omega
  refine ⟨⟨start, count + offset % 2 ^ p, page⟩, halign, by simp only; omega, ?_⟩
  simp only [filePread, mmap, hpage, hlen, hplace, Option.map_some, hptr, copyOffset_page, hsplit]
  rfl

/-- **A write changes the bytes at the low 32 bits of its offset.** -/
theorem filePwrite_eq (hp : p < 32) (hpos : 0 < count) (hcount : count < 2 ^ 31)
    (hplace : space.place (count + offset % 2 ^ p) = some start) (buf : Memory) :
    ∃ m : Mapping, m.fileOffset % 2 ^ p = 0 ∧ m.fileOffset ≤ offset ∧
      filePwrite space (2 ^ p) file buf count offset
        = .ok (some ⟨m, file.store ((List.range count).map fun k =>
          (offset % 2 ^ 32 + k, buf k))⟩) := by
  obtain ⟨page, hpage, hsplit, halign, hinner⟩ := exists_page hp offset
  have hfits := space.fits hplace
  have haddr : toU32 (page : ℕ) = page := toU32_of_lt (by omega)
  have hoffset : toU32 ((offset : ℤ) - page) = offset % 2 ^ p := by
    unfold toU32
    omega
  have hlen : toU32 (count + offset % 2 ^ p : ℕ) = count + offset % 2 ^ p :=
    toU32_of_lt (by omega)
  have hptr : toU32 (start + offset % 2 ^ p : ℕ) = start + offset % 2 ^ p :=
    toU32_of_lt (by omega)
  refine ⟨⟨start, count + offset % 2 ^ p, page⟩, halign, by simp only; omega, ?_⟩
  simp only [filePwrite, mmap, hpage, haddr, hoffset, hlen, hplace, Option.map_some, hptr,
    copyOffset_page, hsplit]
  rfl

/-- What the two functions should do: a read returns the bytes of its range, a write changes them
and no others, the mapping of each begins with a page at or before the range, and a read after a
write of the same range returns what was written. -/
structure CopiesExactly (granularity : ℕ) (reading writing : AddressSpace) (count offset : ℕ) :
    Prop where
  read : ∀ file, ∃ m : Mapping, m.fileOffset % granularity = 0 ∧ m.fileOffset ≤ offset ∧
    filePread reading granularity file count offset = .ok (some ⟨m, file.bytes offset count⟩)
  write : ∀ file buf, ∃ (m : Mapping) (file' : Memory), m.fileOffset % granularity = 0 ∧
    m.fileOffset ≤ offset ∧
    filePwrite writing granularity file buf count offset = .ok (some ⟨m, file'⟩) ∧
    ∀ x, file' x = if offset ≤ x ∧ x < offset + count then buf (x - offset) else file x
  readBack : ∀ file buf m file',
    filePwrite writing granularity file buf count offset = .ok (some ⟨m, file'⟩) →
    ∃ m', filePread reading granularity file' count offset = .ok (some ⟨m', buf.bytes 0 count⟩)

variable {reading writing : AddressSpace} {start' : ℕ}

/-- A file whose only 1 is at the offset shows where a read looks: at the low 32 bits. -/
theorem lt_of_copiesExactly (hp : p < 32) (hpos : 0 < count) (hcount : count < 2 ^ 31)
    (hreading : reading.place (count + offset % 2 ^ p) = some start)
    (h : CopiesExactly (2 ^ p) reading writing count offset) : offset < 2 ^ 32 := by
  by_contra hlarge
  set file : Memory := Function.update (fun _ => 0) offset 1 with hfile
  obtain ⟨m, -, -, hread⟩ := h.read file
  obtain ⟨m', -, -, hread'⟩ := filePread_eq file hp hpos hcount hreading
  have hbytes : file.bytes offset count = file.bytes (offset % 2 ^ 32) count := by
    rw [hread] at hread'
    exact (Mapped.mk.inj (Option.some.inj (Except.ok.inj hread'))).2
  have hfirst := congrArg (·[0]?) hbytes
  simp only [Memory.bytes, List.getElem?_map, List.getElem?_range hpos, Option.map_some,
    add_zero] at hfirst
  rw [hfile, Function.update_self, Function.update_of_ne (by omega)] at hfirst
  exact absurd hfirst (by decide)

/-- Below `2 ^ 32` the low 32 bits are all there is. -/
theorem copiesExactly_of_lt (hp : p < 32) (hpos : 0 < count) (hcount : count < 2 ^ 31)
    (hreading : reading.place (count + offset % 2 ^ p) = some start)
    (hwriting : writing.place (count + offset % 2 ^ p) = some start') (hlt : offset < 2 ^ 32) :
    CopiesExactly (2 ^ p) reading writing count offset := by
  have hmod : offset % 2 ^ 32 = offset := Nat.mod_eq_of_lt hlt
  refine ⟨fun file => ?_, fun file buf => ?_, fun file buf m file' hwrite => ?_⟩
  · obtain ⟨m, halign, hle, hread⟩ := filePread_eq file hp hpos hcount hreading
    rw [hmod] at hread
    exact ⟨m, halign, hle, hread⟩
  · obtain ⟨m, halign, hle, hwrite⟩ := filePwrite_eq file hp hpos hcount hwriting buf
    rw [hmod] at hwrite
    exact ⟨m, _, halign, hle, hwrite, fun x => Memory.store_run buf offset count x⟩
  · obtain ⟨m₀, -, -, hwrite'⟩ := filePwrite_eq file hp hpos hcount hwriting buf
    obtain ⟨m', -, -, hread⟩ := filePread_eq file' hp hpos hcount hreading
    have hfile : file' = file.store ((List.range count).map fun k => (offset + k, buf k)) := by
      rw [hwrite, hmod] at hwrite'
      exact (Mapped.mk.inj (Option.some.inj (Except.ok.inj hwrite'))).2
    rw [hmod, hfile, Memory.bytes_store_run] at hread
    exact ⟨m', hfile ▸ hread⟩

/-- **The slow path of `mmap` copies exactly the bytes of the request precisely when its offset has
at most 32 bits.** -/
theorem copiesExactly_iff {reading writing : AddressSpace} (hp : p < 32) (hpos : 0 < count)
    (hcount : count < 2 ^ 31) (hreading : (reading.place (count + offset % 2 ^ p)).isSome)
    (hwriting : (writing.place (count + offset % 2 ^ p)).isSome) :
    CopiesExactly (2 ^ p) reading writing count offset ↔ offset < 2 ^ 32 := by
  obtain ⟨_, hreading⟩ := Option.isSome_iff_exists.mp hreading
  obtain ⟨_, hwriting⟩ := Option.isSome_iff_exists.mp hwriting
  exact ⟨lt_of_copiesExactly hp hpos hcount hreading,
    copiesExactly_of_lt hp hpos hcount hreading hwriting⟩

end Requests

/-- A kernel that places every mapping at one address, if it fits there. -/
def placeAt (start : ℕ) : AddressSpace where
  place := fun len => if start + len ≤ 2 ^ 32 then some start else none
  fits := by
    intro len start' h
    split_ifs at h with hle
    obtain rfl := Option.some.inj h
    exact hle

/-- A block of 16 KiB at 1 GiB, with pages of 4 KiB. -/
theorem copiesExactly_gibi :
    CopiesExactly (2 ^ 12) (placeAt 4096) (placeAt 8192) 16384 (2 ^ 30) ↔ 2 ^ 30 < 2 ^ 32 :=
  copiesExactly_iff (by decide) (by decide) (by decide) (by decide) (by decide)

/-- **A block at 4 GiB** is read from the beginning of the file. -/
theorem not_copiesExactly_fourGibi :
    (∃ m : Mapping, filePread (placeAt 4096) 4096 (Function.update (fun _ => 0) 0 7) 1 (2 ^ 32)
        = .ok (some ⟨m, [7]⟩)) ∧
      ¬ CopiesExactly 4096 (placeAt 4096) (placeAt 8192) 1 (2 ^ 32) := by
  have hreal : filePread (placeAt 4096) 4096 (Function.update (fun _ => 0) 0 7) 1 (2 ^ 32)
      = .ok (some ⟨⟨4096, 1, 0⟩, [7]⟩) := rfl
  refine ⟨⟨_, hreal⟩, fun h => ?_⟩
  obtain ⟨m, -, -, hread⟩ := h.read (Function.update (fun _ => 0) 0 7)
  rw [hreal] at hread
  exact absurd (Mapped.mk.inj (Option.some.inj (Except.ok.inj hread))).2 (by decide)

end Sysbench.Fileio
