import JurasOS.Alloc.FirstFit
import JurasOS.Kernel.Bitmap
import JurasOS.Libc.String

/-!
# `kheap.c`

The heap lies in memory where `kheap` points: a header, a bitmap and a chunk of
blocks after one another. `kmalloc` looks for the first run of clear blocks, and
`kfree` finds the run from the pointer, by signed arithmetic. `HeapRegion` is a
region that `kheap_add` lays out without remainders, and `HeapAt` says that the
header of such a heap is in memory.
-/

namespace JurasOS

open Machine Alloc

/-- `KHEAP_BITMAP_SIZE(x, y)`. -/
def kheapBitmapSize (x : UInt32) (y : UInt16) : UInt32 := (x + y.toUInt32 - 1) / y.toUInt32

/-- `kheap_memory_size_of`. -/
def kheapMemorySizeOf (memorySize : UInt32) (granularity : UInt16) : UInt32 :=
  28 + kheapBitmapSize memorySize granularity / 8 + memorySize

/-- `kheap->bitmap`. -/
def Kernel.heapBitmap (s : Kernel) : Bitmap := ⟨s.mem.load32 s.kheap, s.mem.load32 (s.kheap + 4)⟩

/-- `kheap->chunk.size`. -/
def Kernel.chunkSize (s : Kernel) : UInt32 := s.mem.load32 (s.kheap + 8)

/-- `kheap->chunk.used`. -/
def Kernel.chunkUsed (s : Kernel) : UInt32 := s.mem.load32 (s.kheap + 12)

/-- `kheap->chunk.granularity`. -/
def Kernel.chunkGranularity (s : Kernel) : UInt16 := s.mem.load16 (s.kheap + 16)

/-- `kheap->chunk.start`. -/
def Kernel.chunkStart (s : Kernel) : UInt32 := s.mem.load32 (s.kheap + 24)

/-- `kheap_add`. -/
def kheapAdd (addr memorySize : UInt32) (granularity : UInt16) (s : Kernel) : Kernel :=
  let s := s.memset addr 0 (kheapMemorySizeOf memorySize granularity)
  let bitmapSize := kheapBitmapSize memorySize granularity / 8
  let m := s.mem.store32 addr bitmapSize
  let m := m.store32 (addr + 4) (addr + 28)
  let m := m.store32 (addr + 8) memorySize
  let m := m.store16 (addr + 16) granularity
  let m := m.store32 (addr + 24) (addr + 28 + bitmapSize)
  { s with kheap := addr, mem := m }

/-- The end of `kmalloc`, when it has found a run: the blocks are marked and the size is counted. -/
def kmallocMark (size : UInt32) (index : ℕ) (s : Kernel) : Kernel :=
  let blockCount := kheapBitmapSize size s.chunkGranularity
  let s := { s with mem := bitmapFill s.heapBitmap (UInt32.ofNat index) blockCount true s.mem }
  { s with mem := s.mem.store32 (s.kheap + 12) (s.chunkUsed + size) }

/-- `kmalloc`. -/
def kmalloc (size : UInt32) : KernelM UInt32 := do
  let s ← get
  let blockCount := kheapBitmapSize size s.chunkGranularity
  match findRun (s.heapBitmap.bits s.mem) s.heapBitmap.length blockCount.toNat 0 with
  | none => throw .panic
  | some index =>
    modify (kmallocMark size index)
    let s ← get
    pure (s.chunkStart + UInt32.ofNat index * s.chunkGranularity.toUInt32)

/-- The index of the block at a pointer, in signed arithmetic. -/
def blockIndex (ptr start : UInt32) (granularity : UInt16) : UInt32 :=
  ((ptr.toInt32 - start.toInt32) / granularity.toUInt32.toInt32).toUInt32

/-- `kfree`. -/
def kfree (ptr size : UInt32) (s : Kernel) : Kernel :=
  let blockCount := kheapBitmapSize size s.chunkGranularity
  let index := blockIndex ptr s.chunkStart s.chunkGranularity
  let s := { s with mem := bitmapFill s.heapBitmap index blockCount false s.mem }
  { s with mem := s.mem.store32 (s.kheap + 12) (s.chunkUsed - size) }

/-! ### The number of blocks -/

/-- The number of blocks of a size. -/
def blockCount (granularity : UInt16) (size : UInt32) : ℕ :=
  (size.toNat + granularity.toNat - 1) / granularity.toNat

/-- `KHEAP_BITMAP_SIZE` counts the blocks, when its sum does not wrap. -/
theorem toNat_kheapBitmapSize {granularity : UInt16} (hpos : 1 ≤ granularity.toNat) {size : UInt32}
    (hwrap : size.toNat + granularity.toNat - 1 < 2 ^ 32) :
    (kheapBitmapSize size granularity).toNat = blockCount granularity size := by
  have hg : granularity.toUInt32.toNat = granularity.toNat := UInt16.toNat_toUInt32 _
  have hlt := granularity.toNat_lt
  rw [kheapBitmapSize, UInt32.toNat_div, UInt32.toNat_sub, UInt32.toNat_add, UInt32.toNat_one, hg, blockCount]
  congr 1
  omega

/-! ### Regions without remainders -/

/-- A region for a heap: a chunk of whole bytes of blocks, below `2 ^ 31` with its header and its bitmap. -/
structure HeapRegion where
  addr : UInt32
  size : UInt32
  granularity : UInt16
  granularity_pos : 1 ≤ granularity.toNat
  size_pos : 0 < size.toNat
  dvd : 8 * granularity.toNat ∣ size.toNat
  below : addr.toNat + 28 + size.toNat / (8 * granularity.toNat) + size.toNat ≤ 2 ^ 31

namespace HeapRegion

variable (H : HeapRegion)

/-- The number of bytes of the bitmap. -/
def bitmapBytes : ℕ := H.size.toNat / (8 * H.granularity.toNat)

/-- The bitmap, after the header. -/
def bitmap : Bitmap := ⟨UInt32.ofNat H.bitmapBytes, H.addr + 28⟩

/-- The number of blocks. -/
def blocks : ℕ := H.bitmapBytes * 8

/-- Where the chunk starts. -/
def start : ℕ := H.addr.toNat + 28 + H.bitmapBytes

/-- The blocks that `n` bytes take. -/
def blocksOf (n : ℕ) : ℕ := (n + H.granularity.toNat - 1) / H.granularity.toNat

theorem size_eq : H.size.toNat = H.blocks * H.granularity.toNat := by
  obtain ⟨k, hk⟩ := H.dvd
  have hpos := H.granularity_pos
  rw [blocks, bitmapBytes, hk, Nat.mul_div_cancel_left k (by omega), Nat.mul_comm k 8, Nat.mul_assoc,
    Nat.mul_assoc, Nat.mul_comm k]

theorem blocks_le : H.blocks ≤ H.size.toNat := by
  rw [H.size_eq]
  exact Nat.le_mul_of_pos_right _ H.granularity_pos

/-- The block at `i` starts here. -/
def blockAt (i : ℕ) : ℕ := H.start + i * H.granularity.toNat

theorem end_le : H.start + H.size.toNat ≤ 2 ^ 31 := H.below

theorem blocksOf_spec (n : ℕ) : n ≤ H.blocksOf n * H.granularity.toNat := by
  have hpos := H.granularity_pos
  have := Nat.div_add_mod (n + H.granularity.toNat - 1) H.granularity.toNat
  have := Nat.mod_lt (n + H.granularity.toNat - 1) hpos
  rw [blocksOf, Nat.mul_comm]
  omega

theorem blocksOf_pos {n : ℕ} (h : 0 < n) : 0 < H.blocksOf n := by
  have hpos := H.granularity_pos
  exact Nat.div_pos (by omega) hpos

theorem toNat_bitmapSize : (kheapBitmapSize H.size H.granularity / 8).toNat = H.bitmapBytes := by
  have hpos := H.granularity_pos
  have hend := H.end_le
  have hlt := H.granularity.toNat_lt
  have hsize := H.size_eq
  rw [UInt32.toNat_div, toNat_kheapBitmapSize hpos (by omega), blockCount, hsize]
  have : (H.blocks * H.granularity.toNat + H.granularity.toNat - 1) / H.granularity.toNat = H.blocks := by
    rw [Nat.add_sub_assoc hpos, Nat.add_comm, Nat.add_mul_div_right _ _ (by omega),
      Nat.div_eq_of_lt (by omega), Nat.zero_add]
  rw [this, blocks]
  exact Nat.mul_div_cancel _ (by decide)

theorem toNat_bitmap_size : H.bitmap.size.toNat = H.bitmapBytes := by
  have hend := H.end_le
  rw [start] at hend
  show (UInt32.ofNat _).toNat = _
  rw [UInt32.toNat_ofNat', Nat.mod_eq_of_lt (by omega)]

theorem toNat_bitmap_buffer : H.bitmap.buffer.toNat = H.addr.toNat + 28 := by
  have hend := H.end_le
  rw [start] at hend
  exact toNat_add_ofNat (i := 28) (by omega)

theorem bitmap_length : H.bitmap.length = H.blocks := by
  have hend := H.end_le
  have hblocks := H.blocks_le
  rw [blocks] at hblocks ⊢
  rw [Bitmap.length_eq (by rw [H.toNat_bitmap_size]; omega), H.toNat_bitmap_size]

/-- Room for a size is room inside the chunk. -/
theorem size_le {i n : ℕ} (h : i + H.blocksOf n ≤ H.blocks) : i * H.granularity.toNat + n ≤ H.size.toNat := by
  have hn := H.blocksOf_spec n
  have := Nat.mul_le_mul_right H.granularity.toNat h
  rw [Nat.add_mul] at this
  rw [H.size_eq]
  omega

/-- The first byte of a block, as a pointer. -/
theorem toNat_ptr {i : ℕ} (h : i ≤ H.blocks) : (UInt32.ofNat (H.blockAt i)).toNat = H.blockAt i := by
  have hend := H.end_le
  have := Nat.mul_le_mul_right H.granularity.toNat h
  rw [← H.size_eq] at this
  rw [UInt32.toNat_ofNat', blockAt, Nat.mod_eq_of_lt (by omega)]

/-- `kmalloc` goes from an index to a pointer. -/
theorem ptr_of_index {i : ℕ} (h : i ≤ H.blocks) {start : UInt32} (hstart : start.toNat = H.start) :
    start + UInt32.ofNat i * H.granularity.toUInt32 = UInt32.ofNat (H.blockAt i) := by
  have hend := H.end_le
  have hblocks := H.blocks_le
  have hg : H.granularity.toUInt32.toNat = H.granularity.toNat := UInt16.toNat_toUInt32 _
  have := Nat.mul_le_mul_right H.granularity.toNat h
  rw [← H.size_eq] at this
  rw [← UInt32.toNat_inj, H.toNat_ptr h, UInt32.toNat_add, UInt32.toNat_mul, UInt32.toNat_ofNat', hg,
    hstart, blockAt, Nat.mod_eq_of_lt (by omega : i < 2 ^ 32)]
  omega

end HeapRegion

theorem msb_eq_false {x : UInt32} (hx : x.toNat < 2 ^ 31) : x.toBitVec.msb = false := by
  rw [BitVec.msb_eq_false_iff_two_mul_lt]
  show 2 * x.toNat < 2 ^ 32
  omega

theorem msb_eq_true {x : UInt32} (hx : 2 ^ 31 ≤ x.toNat) : x.toBitVec.msb = true := by
  rw [BitVec.msb_eq_true_iff_two_mul_ge]
  show 2 ^ 32 ≤ 2 * x.toNat
  omega

/-- For numbers below `2 ^ 31` signed division is division. -/
theorem toInt32_div {x y : UInt32} (hx : x.toNat < 2 ^ 31) (hy : y.toNat < 2 ^ 31) :
    (x.toInt32 / y.toInt32).toUInt32 = x / y := by
  rw [← UInt32.toBitVec_inj]
  show x.toBitVec.sdiv y.toBitVec = x.toBitVec / y.toBitVec
  rw [BitVec.sdiv_eq, msb_eq_false hx, msb_eq_false hy]
  rfl

/-- From `2 ^ 31` on the number is negative, and the quotient is rounded toward zero. -/
theorem toInt32_div_of_neg {x y : UInt32} (hx : 2 ^ 31 ≤ x.toNat) (hy : y.toNat < 2 ^ 31) :
    (x.toInt32 / y.toInt32).toUInt32 = -(-x / y) := by
  rw [← UInt32.toBitVec_inj]
  show x.toBitVec.sdiv y.toBitVec = -(-x.toBitVec / y.toBitVec)
  rw [BitVec.sdiv_eq, msb_eq_true hx, msb_eq_false hy]
  rfl

/-- `kfree` goes from a pointer back to its index. -/
theorem HeapRegion.index_of_ptr (H : HeapRegion) {i : ℕ} (h : i < H.blocks) {start : UInt32}
    (hstart : start.toNat = H.start) :
    blockIndex (UInt32.ofNat (H.blockAt i)) start H.granularity = UInt32.ofNat i := by
  have hend := H.end_le
  have hblocks := H.blocks_le
  have hpos := H.granularity_pos
  have hg : H.granularity.toUInt32.toNat = H.granularity.toNat := UInt16.toNat_toUInt32 _
  have hgran := H.granularity.toNat_lt
  have hlt := Nat.mul_lt_mul_of_pos_right h hpos
  rw [← H.size_eq] at hlt
  have hoffset : (UInt32.ofNat (H.blockAt i) - start).toNat = i * H.granularity.toNat := by
    have hptr := H.toNat_ptr (Nat.le_of_lt h)
    rw [UInt32.toNat_sub, hptr, hstart, blockAt]
    omega
  rw [blockIndex]
  show ((UInt32.ofNat (H.blockAt i) - start).toInt32 / _).toUInt32 = _
  rw [toInt32_div (by omega) (by omega), ← UInt32.toNat_inj, UInt32.toNat_div, hoffset, hg,
    UInt32.toNat_ofNat', Nat.mul_div_cancel _ hpos, Nat.mod_eq_of_lt (by omega)]

/-! ### The header -/

/-- The header of the heap on the region `H` is in memory, with this use. -/
structure HeapAt (H : HeapRegion) (s : Kernel) (used : UInt32) : Prop where
  kheap : s.kheap = H.addr
  bitmap : s.heapBitmap = H.bitmap
  chunkSize : s.chunkSize = H.size
  chunkUsed : s.chunkUsed = used
  granularity : s.chunkGranularity = H.granularity
  start : s.chunkStart.toNat = H.start

section HeapAt

variable {H : HeapRegion} {s s' : Kernel} {used : UInt32}

/-- Fields of the header that do not overlap are apart. -/
theorem disjoint_field (addr : UInt32) {i j : UInt32} {a b : ℕ} (hi : i.toNat + a ≤ 28)
    (hj : j.toNat + b ≤ 28) (h : i.toNat + a ≤ j.toNat ∨ j.toNat + b ≤ i.toNat) :
    Disjoint (span (addr + i) a) (span (addr + j) b) :=
  disjoint_span_offset (by omega) (by omega) h

theorem field_subset (addr : UInt32) {i : UInt32} {a : ℕ} (hi : i.toNat + a ≤ 28) :
    span (addr + i) a ⊆ span addr 28 :=
  span_offset_subset hi

/-- Bits of the heap's bitmap lie outside the header. -/
theorem bytes_apart (H : HeapRegion) {F : Set ℕ} (hF : F ⊆ Set.Iio H.blocks) :
    Disjoint (span H.addr 28) (H.bitmap.bytes F) := by
  have hend := H.end_le
  have hsize := H.toNat_bitmap_size
  have hbuffer := H.toNat_bitmap_buffer
  rw [HeapRegion.start] at hend
  refine Set.disjoint_left.mpr fun a ha hb => ?_
  obtain ⟨f, hf, rfl⟩ := hb
  have hlt : f < H.bitmap.length := by rw [H.bitmap_length]; exact hF hf
  have hmem := Bitmap.byteAddr_mem_span hlt
  rw [mem_span_iff (by omega)] at hmem ha
  omega

/-- The header depends only on its own bytes. -/
theorem HeapAt.congr (h : HeapAt H s used) {m : Mem} (hm : Set.EqOn m s.mem (span H.addr 28)) :
    HeapAt H { s with mem := m } used := by
  have hload : ∀ i : UInt32, i.toNat + 4 ≤ 28 → m.load32 (H.addr + i) = s.mem.load32 (H.addr + i) :=
    fun i hi => Mem.load32_congr (hm.mono (field_subset H.addr hi))
  have hfirst : m.load32 H.addr = s.mem.load32 H.addr := by simpa using hload 0 (by decide)
  have hgran : m.load16 (H.addr + 16) = s.mem.load16 (H.addr + 16) :=
    Mem.load16_congr (hm.mono (field_subset H.addr (by decide)))
  obtain ⟨hkheap, hbitmap, hsize, hused, hgranularity, hstart⟩ := h
  simp only [Kernel.heapBitmap, Kernel.chunkSize, Kernel.chunkUsed, Kernel.chunkGranularity,
    Kernel.chunkStart, hkheap] at hbitmap hsize hused hgranularity hstart
  constructor <;>
    simp only [Kernel.heapBitmap, Kernel.chunkSize, Kernel.chunkUsed, Kernel.chunkGranularity,
      Kernel.chunkStart, hkheap, hfirst, hgran, hload 4 (by decide), hload 8 (by decide),
      hload 12 (by decide), hload 24 (by decide), hbitmap, hsize, hused, hgranularity, hstart]

/-- A write of the use changes the use, and no bit of the bitmap. -/
theorem HeapAt.setUsed (h : HeapAt H s used) (v : UInt32) :
    let t : Kernel := { s with mem := s.mem.store32 (s.kheap + 12) v }
    HeapAt H t v ∧ ∀ f < H.blocks, H.bitmap.bits t.mem f = H.bitmap.bits s.mem f := by
  have hload : ∀ i : UInt32, i.toNat + 4 ≤ 28 → i.toNat + 4 ≤ 12 ∨ 16 ≤ i.toNat →
      (s.mem.store32 (H.addr + 12) v).load32 (H.addr + i) = s.mem.load32 (H.addr + i) :=
    fun i hi hi' => Mem.load32_store32_of_disjoint (disjoint_field H.addr hi (by decide) hi')
  have hfirst : (s.mem.store32 (H.addr + 12) v).load32 H.addr = s.mem.load32 H.addr := by
    simpa using hload 0 (by decide) (by decide)
  have hgran : (s.mem.store32 (H.addr + 12) v).load16 (H.addr + 16) = s.mem.load16 (H.addr + 16) :=
    Mem.load16_store32_of_disjoint (disjoint_field H.addr (by decide) (by decide) (by decide))
  have hbits : ∀ f < H.blocks, H.bitmap.bits (s.mem.store32 (H.addr + 12) v) f = H.bitmap.bits s.mem f := by
    refine fun f hf => Bitmap.bits_congr (s.mem.eqOn_store32 _ _ fun hmem => ?_)
    exact Set.disjoint_left.mp (bytes_apart H (F := {f}) (by simpa using hf))
      (field_subset H.addr (by decide) hmem)
      ⟨f, rfl, rfl⟩
  obtain ⟨hkheap, hbitmap, hsize, -, hgranularity, hstart⟩ := h
  simp only [Kernel.heapBitmap, Kernel.chunkSize, Kernel.chunkGranularity, Kernel.chunkStart, hkheap]
    at hbitmap hsize hgranularity hstart
  refine ⟨?_, by simpa only [hkheap] using hbits⟩
  constructor <;>
    simp only [Kernel.heapBitmap, Kernel.chunkSize, Kernel.chunkUsed, Kernel.chunkGranularity,
      Kernel.chunkStart, hkheap, hfirst, hgran, Mem.load32_store32, hload 4 (by decide) (by decide),
      hload 8 (by decide) (by decide), hload 24 (by decide) (by decide), hbitmap, hsize, hgranularity, hstart]

/-! ### The operations -/

theorem HeapRegion.toNat_memorySize (H : HeapRegion) :
    (kheapMemorySizeOf H.size H.granularity).toNat = 28 + H.bitmapBytes + H.size.toNat := by
  have hend := H.end_le
  rw [HeapRegion.start] at hend
  rw [kheapMemorySizeOf, UInt32.toNat_add, UInt32.toNat_add, H.toNat_bitmapSize]
  show ((28 + _) % 2 ^ 32 + _) % 2 ^ 32 = _
  omega

/-- The header that `kheap_add` writes. -/
def kheapHeader (addr bitmapSize buffer memorySize start : UInt32) (granularity : UInt16) (m : Mem) : Mem :=
  ((((m.store32 addr bitmapSize).store32 (addr + 4) buffer).store32 (addr + 8) memorySize).store16
    (addr + 16) granularity).store32 (addr + 24) start

/-- The fields of a header are where they were written, and the use is as it was. -/
theorem load_header (m : Mem) (addr bitmapSize buffer memorySize start : UInt32) (granularity : UInt16) :
    let m' := kheapHeader addr bitmapSize buffer memorySize start granularity m
    m'.load32 addr = bitmapSize ∧ m'.load32 (addr + 4) = buffer ∧ m'.load32 (addr + 8) = memorySize ∧
      m'.load32 (addr + 12) = m.load32 (addr + 12) ∧ m'.load16 (addr + 16) = granularity ∧
      m'.load32 (addr + 24) = start ∧ Set.EqOn m' m (span addr 28)ᶜ := by
  have h32 : ∀ i j : UInt32, i.toNat + 4 ≤ 28 → j.toNat + 4 ≤ 28 → i.toNat + 4 ≤ j.toNat ∨
    j.toNat + 4 ≤ i.toNat →
      Disjoint (span (addr + i) 4) (span (addr + j) 4) := fun i j hi hj h => disjoint_field addr hi hj h
  have h16 : ∀ i : UInt32, i.toNat + 4 ≤ 28 → i.toNat + 4 ≤ 16 ∨ 18 ≤ i.toNat →
      Disjoint (span (addr + i) 4) (span (addr + 16) 2) := fun i hi h => disjoint_field addr hi (by decide) h
  have hhead : ∀ j : UInt32, 4 ≤ j.toNat → j.toNat + 4 ≤ 28 → Disjoint (span addr 4) (span (addr + j) 4) :=
    fun j hj hj' => by simpa using h32 0 j (by decide) hj' (Or.inl hj)
  refine ⟨?_, ?_, ?_, ?_, ?_, Mem.load32_store32 .., fun a ha => ?_⟩
  · have hgran : Disjoint (span addr 4) (span (addr + 16) 2) := by
      simpa using h16 0 (by decide) (by decide)
    rw [kheapHeader, Mem.load32_store32_of_disjoint (hhead 24 (by decide) (by decide)),
      Mem.load32_store16_of_disjoint hgran, Mem.load32_store32_of_disjoint (hhead 8 (by decide) (by decide)),
      Mem.load32_store32_of_disjoint (hhead 4 (by decide) (by decide)), Mem.load32_store32]
  · rw [kheapHeader, Mem.load32_store32_of_disjoint (h32 4 24 (by decide) (by decide) (by decide)),
      Mem.load32_store16_of_disjoint (h16 4 (by decide) (by decide)),
      Mem.load32_store32_of_disjoint (h32 4 8 (by decide) (by decide) (by decide)), Mem.load32_store32]
  · rw [kheapHeader, Mem.load32_store32_of_disjoint (h32 8 24 (by decide) (by decide) (by decide)),
      Mem.load32_store16_of_disjoint (h16 8 (by decide) (by decide)), Mem.load32_store32]
  · rw [kheapHeader, Mem.load32_store32_of_disjoint (h32 12 24 (by decide) (by decide) (by decide)),
      Mem.load32_store16_of_disjoint (h16 12 (by decide) (by decide)),
      Mem.load32_store32_of_disjoint (h32 12 8 (by decide) (by decide) (by decide)),
      Mem.load32_store32_of_disjoint (h32 12 4 (by decide) (by decide) (by decide)),
      Mem.load32_store32_of_disjoint (hhead 12 (by decide) (by decide)).symm]
  · have h : Disjoint (span (addr + 16) 2) (span (addr + 24) 4) :=
      disjoint_field addr (by decide) (by decide) (by decide)
    rw [kheapHeader, Mem.load16_store32_of_disjoint h, Mem.load16_store16]
  · have hoff : ∀ (i : UInt32) (k : ℕ), i.toNat + k ≤ 28 → a ∉ span (addr + i) k :=
      fun i k hi h => ha (field_subset addr hi h)
    have hoff0 : a ∉ span addr 4 := fun h => ha (span_mono (by omega) h)
    rw [kheapHeader, Mem.eqOn_store32 _ _ _ (hoff 24 4 (by decide)),
      Mem.eqOn_store16 _ _ _ (hoff 16 2 (by decide)), Mem.eqOn_store32 _ _ _ (hoff 8 4 (by decide)),
      Mem.eqOn_store32 _ _ _ (hoff 4 4 (by decide)), Mem.eqOn_store32 _ _ _ hoff0]

/-- The header of a new heap, over the bytes that `kheap_add` cleared. -/
theorem kheapAdd_loads (addr memorySize : UInt32) (granularity : UInt16) (s : Kernel) :
    let m := memset addr 0 (kheapMemorySizeOf memorySize granularity) s.mem
    let m' := (kheapAdd addr memorySize granularity s).mem
    m'.load32 addr = kheapBitmapSize memorySize granularity / 8 ∧ m'.load32 (addr + 4) = addr + 28 ∧
      m'.load32 (addr + 8) = memorySize ∧ m'.load32 (addr + 12) = m.load32 (addr + 12) ∧
      m'.load16 (addr + 16) = granularity ∧
      m'.load32 (addr + 24) = addr + 28 + kheapBitmapSize memorySize granularity / 8 ∧
      Set.EqOn m' m (span addr 28)ᶜ :=
  load_header ..

theorem kheapAdd_same (addr memorySize : UInt32) (granularity : UInt16) (s : Kernel) :
    kheapAdd addr memorySize granularity s = { s with
      mem := (kheapAdd addr memorySize granularity s).mem, kheap := addr
      trace := (kheapAdd addr memorySize granularity s).trace } := rfl

/-- `kheap_add` writes inside the bytes that it counts. -/
theorem eqOn_kheapAdd {addr memorySize : UInt32} {granularity : UInt16}
    (hheader : 28 ≤ (kheapMemorySizeOf memorySize granularity).toNat) (s : Kernel) :
    Set.EqOn (kheapAdd addr memorySize granularity s).mem s.mem
      (span addr (kheapMemorySizeOf memorySize granularity).toNat)ᶜ := by
  intro a ha
  have hfield : a ∉ span addr 28 := fun hmem => ha (span_mono hheader hmem)
  obtain ⟨-, -, -, -, -, -, hmem⟩ := kheapAdd_loads addr memorySize granularity s
  rw [hmem hfield, eqOn_memset _ _ _ _ ha]

theorem HeapRegion.bitmapSize_eq (H : HeapRegion) :
    kheapBitmapSize H.size H.granularity / 8 = UInt32.ofNat H.bitmapBytes := by
  rw [← H.toNat_bitmapSize, UInt32.ofNat_toNat]

/-- The chunk starts after the header and the bitmap. -/
theorem HeapRegion.start_eq (H : HeapRegion) :
    H.addr + 28 + UInt32.ofNat H.bitmapBytes = UInt32.ofNat H.start := by
  have hend := H.end_le
  have hbuffer := H.toNat_bitmap_buffer
  rw [HeapRegion.start] at hend
  rw [← UInt32.toNat_inj, UInt32.toNat_add, UInt32.toNat_ofNat', UInt32.toNat_ofNat', HeapRegion.start]
  show (H.bitmap.buffer.toNat + _) % 2 ^ 32 = _
  omega

/-- The bitmap is clear: its bytes were cleared, and come after the header. -/
theorem kheapAdd_clear (H : HeapRegion) (s : Kernel) {f : ℕ} (hf : f < H.blocks) :
    H.bitmap.bits (kheapAdd H.addr H.size H.granularity s).mem f = false := by
  refine Bitmap.bits_of_zero ?_
  have hend := H.end_le
  have hmemory := H.toNat_memorySize
  have hbuffer := H.toNat_bitmap_buffer
  have hbitmap := H.toNat_bitmap_size
  rw [HeapRegion.start] at hend
  have hlt : f < H.bitmap.length := by rwa [H.bitmap_length]
  have hbyte := Bitmap.byteAddr_mem_span hlt
  have hapart := Set.disjoint_left.mp (bytes_apart H (F := {f}) (by simpa using hf))
  obtain ⟨-, -, -, -, -, -, hmem⟩ := kheapAdd_loads H.addr H.size H.granularity s
  rw [hmem fun h => hapart h ⟨f, rfl, rfl⟩]
  refine memset_of_mem ?_ 0 s.mem
  rw [mem_span_iff (by omega)] at hbyte
  rw [mem_span_iff (by omega)]
  omega

/-- **`kheap_add` makes an empty heap.** -/
theorem kheapAdd_ok (H : HeapRegion) (s : Kernel) :
    HeapAt H (kheapAdd H.addr H.size H.granularity s) 0 ∧
      ∀ f < H.blocks, H.bitmap.bits (kheapAdd H.addr H.size H.granularity s).mem f = false := by
  have hend := H.end_le
  have hmemory := H.toNat_memorySize
  rw [HeapRegion.start] at hend
  obtain ⟨h0, h4, h8, h12, h16, h24, -⟩ := kheapAdd_loads H.addr H.size H.granularity s
  rw [H.bitmapSize_eq] at h0 h24
  rw [H.start_eq] at h24
  refine ⟨⟨rfl, congrArg₂ Bitmap.mk h0 h4, h8, ?_, h16, ?_⟩, fun f hf => kheapAdd_clear H s hf⟩
  · refine h12.trans (Mem.load32_eq_zero fun b hb => memset_of_mem ?_ 0 s.mem)
    rw [hmemory]
    exact span_mono (by omega) (field_subset H.addr (by decide) hb)
  · refine (congrArg UInt32.toNat h24).trans ?_
    rw [UInt32.toNat_ofNat', HeapRegion.start, Nat.mod_eq_of_lt (by omega)]

/-- The bytes of the bitmap come after the header. -/
theorem HeapRegion.bytes_subset (H : HeapRegion) {F : Set ℕ} (hF : F ⊆ Set.Iio H.blocks) :
    H.bitmap.bytes F ⊆ span H.addr (28 + H.bitmapBytes) := by
  rintro a ⟨f, hf, rfl⟩
  have hlt : f < H.bitmap.length := by rw [H.bitmap_length]; exact hF hf
  have hmem := Bitmap.byteAddr_mem_span hlt
  rw [H.toNat_bitmap_size] at hmem
  exact span_offset_subset (i := 28) (le_refl (28 + _)) hmem

/-- Filling the blocks of a size, and no others. -/
theorem HeapAt.fill (h : HeapAt H s used) {size : UInt32} {i : ℕ}
    (hin : i + H.blocksOf size.toNat ≤ H.blocks) (value : Bool) :
    let t : Kernel := { s with
      mem := bitmapFill s.heapBitmap (UInt32.ofNat i) (kheapBitmapSize size H.granularity) value s.mem }
    HeapAt H t used ∧ (∀ f < H.blocks, H.bitmap.bits t.mem f =
      if i ≤ f ∧ f < i + H.blocksOf size.toNat then value else H.bitmap.bits s.mem f) ∧
    Set.EqOn t.mem s.mem (span H.addr (28 + H.bitmapBytes))ᶜ := by
  have hle := H.size_le hin
  have hend := H.end_le
  have hblocks := H.blocks_le
  have hgran := H.granularity.toNat_lt
  have hindex : (UInt32.ofNat i).toNat = i := by rw [UInt32.toNat_ofNat', Nat.mod_eq_of_lt (by omega)]
  have hcount : (kheapBitmapSize size H.granularity).toNat = H.blocksOf size.toNat :=
    toNat_kheapBitmapSize H.granularity_pos (by omega)
  have hfits : (UInt32.ofNat i).toNat + (kheapBitmapSize size H.granularity).toNat ≤ 2 ^ 32 := by omega
  obtain ⟨hbits, hmem⟩ := bitmapFill_bits H.bitmap hfits value s.mem
  rw [hindex, hcount] at hbits hmem
  have hsub : Set.Ico i (i + H.blocksOf size.toNat) ⊆ Set.Iio H.blocks := fun f hf => lt_of_lt_of_le hf.2 hin
  rw [h.bitmap]
  refine ⟨h.congr (hmem.mono ?_), fun f hf => hbits f (by omega), hmem.mono ?_⟩
  · exact Set.disjoint_left.mp (bytes_apart H hsub)
  · exact Set.compl_subset_compl.mpr (H.bytes_subset hsub)

/-- `kmalloc`, when it has found a run, marks its blocks. -/
theorem HeapAt.kmallocMark (h : HeapAt H s used) {size : UInt32} {i : ℕ}
    (hin : i + H.blocksOf size.toNat ≤ H.blocks) :
    HeapAt H (kmallocMark size i s) (used + size) ∧ (∀ f < H.blocks,
    H.bitmap.bits (JurasOS.kmallocMark size i s).mem f =
      if i ≤ f ∧ f < i + H.blocksOf size.toNat then true else H.bitmap.bits s.mem f) ∧
    Set.EqOn (JurasOS.kmallocMark size i s).mem s.mem (span H.addr (28 + H.bitmapBytes))ᶜ := by
  obtain ⟨hfill, hbits, hmem⟩ := h.fill hin true
  rw [JurasOS.kmallocMark, h.granularity]
  obtain ⟨hset, hkept⟩ := hfill.setUsed (used + size)
  simp only [hfill.chunkUsed]
  refine ⟨hset, fun f hf => (hkept f hf).trans (hbits f hf), fun a ha => ?_⟩
  have hused : a ∉ span (s.kheap + 12) 4 := by
    rw [h.kheap]
    exact fun hmem => ha (span_mono (by omega) (field_subset H.addr (by decide) hmem))
  exact (Mem.eqOn_store32 _ _ _ hused).trans (hmem ha)

/-- The first run of clear blocks, with room for the size, is allocated. -/
theorem HeapAt.kmalloc (h : HeapAt H s used) {size : UInt32} (hsize : 0 < size.toNat) {j : ℕ}
    (hroom : Room (H.bitmap.bits s.mem) H.blocks (H.blocksOf size.toNat) j) :
    ∃ i, kmalloc size s = .ok (UInt32.ofNat (H.blockAt i)) (JurasOS.kmallocMark size i s) ∧
      Room (H.bitmap.bits s.mem) H.blocks (H.blocksOf size.toNat) i := by
  have hle := H.size_le hroom.1
  have hend := H.end_le
  have hgran := H.granularity.toNat_lt
  have hcount : (kheapBitmapSize size H.granularity).toNat = H.blocksOf size.toNat :=
    toNat_kheapBitmapSize H.granularity_pos (by omega)
  obtain ⟨i, hfind, -, hi, -⟩ := findRun_of_room (H.blocksOf_pos hsize) hroom
  refine ⟨i, ?_, hi⟩
  have hmark := (h.kmallocMark hi.1).1
  have hptr : (JurasOS.kmallocMark size i s).chunkStart +
      UInt32.ofNat i * (JurasOS.kmallocMark size i s).chunkGranularity.toUInt32 =
      UInt32.ofNat (H.blockAt i) := by
    have := hi.1
    rw [hmark.granularity, H.ptr_of_index (by omega) hmark.start]
  rw [JurasOS.kmalloc, bind_of_ok (get_apply s), h.granularity, h.bitmap, H.bitmap_length, hcount, hfind]
  show (modify (JurasOS.kmallocMark size i) >>= _ : KernelM UInt32) s = _
  rw [bind_of_ok (modify_apply ..), bind_of_ok (get_apply _), pure_apply, hptr]

/-- `kfree` clears the blocks of a pointer. -/
theorem HeapAt.kfree (h : HeapAt H s used) {size : UInt32} {i : ℕ} (hsize : 0 < size.toNat)
    (hin : i + H.blocksOf size.toNat ≤ H.blocks) :
    HeapAt H (kfree (UInt32.ofNat (H.blockAt i)) size s) (used - size) ∧
      ∀ f < H.blocks, H.bitmap.bits (JurasOS.kfree (UInt32.ofNat (H.blockAt i)) size s).mem f =
        if i ≤ f ∧ f < i + H.blocksOf size.toNat then false else H.bitmap.bits s.mem f := by
  have hpos := H.blocksOf_pos hsize
  obtain ⟨hfill, hbits, -⟩ := h.fill hin false
  rw [JurasOS.kfree, h.granularity, H.index_of_ptr (by omega : i < H.blocks) h.start]
  obtain ⟨hset, hkept⟩ := hfill.setUsed (used - size)
  simp only [hfill.chunkUsed]
  exact ⟨hset, fun f hf => (hkept f hf).trans (hbits f hf)⟩

end HeapAt

end JurasOS
