import JurasOS.Heap.RoundTrip

/-!
# Where the blocks of a heap are

`kheap_add` puts the header, the bitmap and the chunk after one another. The bitmap
has whole bytes only: the number of blocks is rounded up from the size of the chunk,
and then down to a multiple of eight. So the last block of the bitmap is inside the
chunk whenever the second rounding takes blocks away, and else when the first one
adds nothing.
-/

namespace JurasOS

open Machine Alloc

/-- The bytes of a block: those that `kmalloc` returns for its index. -/
def Kernel.blockBytes (s : Kernel) (b : ℕ) : Set UInt32 :=
  span (s.chunkStart + UInt32.ofNat b * s.chunkGranularity.toUInt32) s.chunkGranularity.toNat

/-- The header, the bitmap and the chunk are after one another in the bytes that `kheap_memory_size_of`
counts, and every block of the bitmap is in the chunk. -/
structure HeapLaidOut (addr memorySize : UInt32) (granularity : UInt16) (s : Kernel) : Prop where
  header : s.kheap = addr
  bitmap : s.heapBitmap.buffer.toNat = addr.toNat + 28
  chunk : s.chunkStart.toNat = s.heapBitmap.buffer.toNat + s.heapBitmap.size.toNat
  size : s.chunkSize = memorySize
  inside : s.chunkStart.toNat + s.chunkSize.toNat ≤
    addr.toNat + (kheapMemorySizeOf memorySize granularity).toNat
  headerBitmap : Disjoint (span addr 28) (span s.heapBitmap.buffer s.heapBitmap.size.toNat)
  headerChunk : Disjoint (span addr 28) (span s.chunkStart s.chunkSize.toNat)
  bitmapChunk : Disjoint (span s.heapBitmap.buffer s.heapBitmap.size.toNat)
    (span s.chunkStart s.chunkSize.toNat)
  blocks : ∀ b < s.heapBitmap.length, s.blockBytes b ⊆ span s.chunkStart s.chunkSize.toNat

/-! ### The two roundings -/

/-- The number of blocks is the size of the chunk, rounded up. -/
theorem blockCount_spec {granularity : UInt16} (hpos : 1 ≤ granularity.toNat) (size : UInt32) :
    size.toNat ≤ blockCount granularity size * granularity.toNat ∧
      blockCount granularity size * granularity.toNat < size.toNat + granularity.toNat := by
  have hdiv := Nat.div_add_mod (size.toNat + granularity.toNat - 1) granularity.toNat
  have hmod := Nat.mod_lt (size.toNat + granularity.toNat - 1) hpos
  rw [blockCount, Nat.mul_comm]
  omega

theorem blockCount_of_dvd {granularity : UInt16} (hpos : 1 ≤ granularity.toNat) {size : UInt32}
    (hdvd : granularity.toNat ∣ size.toNat) :
    blockCount granularity size * granularity.toNat = size.toNat := by
  obtain ⟨k, hk⟩ := hdvd
  obtain ⟨hle, hlt⟩ := blockCount_spec hpos size
  rw [hk, Nat.mul_comm granularity.toNat k] at hle hlt ⊢
  rw [← Nat.succ_mul] at hlt
  have hle' := Nat.le_of_mul_le_mul_right hle hpos
  have hlt' := Nat.lt_of_mul_lt_mul_right hlt
  rw [show blockCount granularity size = k by omega]

/-- The blocks of whole bytes are in the chunk exactly when there is no remainder, or a byte is left away. -/
theorem blocks_le_iff {granularity : UInt16} (hpos : 1 ≤ granularity.toNat) {size : UInt32}
    (hsize : 1 ≤ size.toNat) :
    (∀ b < blockCount granularity size / 8 * 8, (b + 1) * granularity.toNat ≤ size.toNat) ↔
      granularity.toNat ∣ size.toNat ∨ ¬ 8 ∣ blockCount granularity size := by
  obtain ⟨hle, hlt⟩ := blockCount_spec hpos size
  have hcount : 0 < blockCount granularity size := by
    rw [Nat.pos_iff_ne_zero]
    intro hzero
    rw [hzero, Nat.zero_mul] at hle
    omega
  constructor
  · intro hblocks
    by_contra hnot
    rw [not_or, not_not] at hnot
    obtain ⟨hdvd, height⟩ := hnot
    -- All blocks are in the bitmap, and the last one ends after the chunk.
    have hlast := hblocks (blockCount granularity size - 1) (by omega)
    rw [Nat.sub_add_cancel hcount] at hlast
    exact hdvd ⟨blockCount granularity size, by rw [Nat.mul_comm]; omega⟩
  · rintro (hdvd | height) b hb
    · rw [← blockCount_of_dvd hpos hdvd]
      exact Nat.mul_le_mul_right _ (by omega)
    · have hfloor : (b + 1 + 1) * granularity.toNat ≤ blockCount granularity size * granularity.toNat :=
        Nat.mul_le_mul_right _ (by omega)
      rw [Nat.succ_mul] at hfloor
      omega

/-! ### The layout -/

section HeapHeader

variable {addr memorySize : UInt32} {granularity : UInt16} {s : Kernel}

theorem toNat_bitmapBytes (hpos : 1 ≤ granularity.toNat)
    (hwrap : memorySize.toNat + granularity.toNat - 1 < 2 ^ 32) :
    (kheapBitmapSize memorySize granularity / 8).toNat = blockCount granularity memorySize / 8 := by
  rw [UInt32.toNat_div, toNat_kheapBitmapSize hpos hwrap]
  rfl

/-- The bitmap has a bit for each block of whole bytes. -/
theorem HeapHeader.length_eq (h : HeapHeader addr memorySize granularity s) (hpos : 1 ≤ granularity.toNat)
    (hwrap : memorySize.toNat + granularity.toNat - 1 < 2 ^ 32) :
    s.heapBitmap.length = blockCount granularity memorySize / 8 * 8 := by
  have hbytes := toNat_bitmapBytes hpos hwrap
  have hcount : blockCount granularity memorySize < 2 ^ 32 := by
    rw [← toNat_kheapBitmapSize hpos hwrap]
    exact UInt32.toNat_lt _
  have hsize : s.heapBitmap.size.toNat = blockCount granularity memorySize / 8 := by rw [h.bitmap, hbytes]
  rw [Bitmap.length_eq (by rw [hsize]; omega), hsize]

/-- A block is in the chunk exactly when its end is. -/
theorem HeapHeader.blockBytes_subset_iff (h : HeapHeader addr memorySize granularity s)
    (hpos : 1 ≤ granularity.toNat) (hwrap : memorySize.toNat + granularity.toNat - 1 < 2 ^ 32) {b : ℕ}
    (hb : b < s.heapBitmap.length) :
    s.blockBytes b ⊆ span s.chunkStart memorySize.toNat ↔ (b + 1) * granularity.toNat ≤ memorySize.toNat := by
  have hoffset := h.toNat_offset hpos hb
  have hsucc : (b + 1) * granularity.toNat = b * granularity.toNat + granularity.toNat := Nat.succ_mul ..
  rw [UInt32.add_comm, UInt32.add_sub_cancel] at hoffset
  rw [Kernel.blockBytes, h.chunkGranularity]
  constructor
  · intro hsub
    have hlength := h.length_eq hpos hwrap
    obtain ⟨-, hcount⟩ := blockCount_spec hpos memorySize
    have hbelow : (b + 1) * granularity.toNat ≤ blockCount granularity memorySize * granularity.toNat :=
      Nat.mul_le_mul_right _ (by omega)
    have hlast := hsub (add_ofNat_mem_span (i := granularity.toNat - 1) (by omega) (by omega))
    rw [mem_span, UInt32.add_assoc, UInt32.add_comm, UInt32.add_sub_cancel, toNat_add_ofNat (by omega),
      hoffset] at hlast
    omega
  · intro hend
    exact span_offset_subset (by omega)

/-- `kheap_memory_size_of` counts the header, the bitmap and the chunk. -/
theorem toNat_kheapMemorySizeOf
    (hsize : 28 + (kheapBitmapSize memorySize granularity / 8).toNat + memorySize.toNat < 2 ^ 32) :
    (kheapMemorySizeOf memorySize granularity).toNat =
      28 + (kheapBitmapSize memorySize granularity / 8).toNat + memorySize.toNat := by
  have hheader : (28 : UInt32).toNat = 28 := rfl
  rw [kheapMemorySizeOf, UInt32.toNat_add, UInt32.toNat_add, hheader]
  omega

/-- **`kheap_add` lays the heap out, with every block of the bitmap in the chunk, exactly when** the
size of the chunk is a multiple of the granularity, or its number of blocks is not a multiple of
eight. -/
theorem kheapAdd_laidOut_iff (addr : UInt32) (hpos : 1 ≤ granularity.toNat) (hmemory : 1 ≤ memorySize.toNat)
    (hwrap : memorySize.toNat + granularity.toNat - 1 < 2 ^ 32)
    (hsize : 28 + (kheapBitmapSize memorySize granularity / 8).toNat + memorySize.toNat < 2 ^ 32)
    (hend : addr.toNat + 28 + (kheapBitmapSize memorySize granularity / 8).toNat + memorySize.toNat ≤ 2 ^ 32)
    (s : Kernel) :
    HeapLaidOut addr memorySize granularity (kheapAdd addr memorySize granularity s) ↔
      granularity.toNat ∣ memorySize.toNat ∨
        ¬ 8 ∣ (memorySize.toNat + granularity.toNat - 1) / granularity.toNat := by
  have h := kheapAdd_header addr memorySize granularity s
  generalize kheapAdd addr memorySize granularity s = t at h
  have hlength := h.length_eq hpos hwrap
  have hblocks : (∀ b < t.heapBitmap.length, t.blockBytes b ⊆ span t.chunkStart t.chunkSize.toNat) ↔
      granularity.toNat ∣ memorySize.toNat ∨ ¬ 8 ∣ blockCount granularity memorySize := by
    rw [← blocks_le_iff hpos hmemory, ← hlength, h.chunkSize]
    exact forall₂_congr fun b hb => h.blockBytes_subset_iff hpos hwrap hb
  refine ⟨fun hlaid => hblocks.mp hlaid.blocks, fun hresidue => ?_⟩
  have htotal := toNat_kheapMemorySizeOf hsize
  have hbuffer : t.heapBitmap.buffer.toNat = addr.toNat + 28 := by
    rw [h.bitmap]
    exact toNat_add_ofNat (i := 28) (by omega)
  have hbytes : t.heapBitmap.size.toNat = (kheapBitmapSize memorySize granularity / 8).toNat := by
    rw [h.bitmap]
  have hstart : t.chunkStart.toNat = t.heapBitmap.buffer.toNat + t.heapBitmap.size.toNat := by
    rw [h.bitmap] at hbuffer
    change (addr + 28).toNat = _ at hbuffer
    rw [h.start, h.bitmap]
    exact toNat_add_of_lt (by omega)
  have hchunk := h.chunkSize
  refine ⟨h.kheap, hbuffer, hstart, hchunk, ?_, ?_, ?_, ?_, hblocks.mpr hresidue⟩
  · rw [hchunk]
    omega
  · exact disjoint_span (by omega) (by omega) (Or.inl (by omega))
  · exact disjoint_span (by omega) (by rw [hchunk]; omega) (Or.inl (by omega))
  · exact disjoint_span (by omega) (by rw [hchunk]; omega) (Or.inl (by omega))

/-- A chunk of 60 bytes has fifteen blocks of four, of which the bitmap has eight. -/
theorem kheapAdd_laidOut_sixty :
    HeapLaidOut 0x100000 60 4 (kheapAdd 0x100000 60 4 Kernel.loaded) :=
  (kheapAdd_laidOut_iff 0x100000 (by decide) (by decide) (by decide) (by decide) (by decide)
    Kernel.loaded).mpr
    (Or.inl (by decide))

/-- Of a chunk of 63 bytes in blocks of four, the last of the sixteen blocks ends a byte after the chunk. -/
theorem kheapAdd_block_past_end :
    ¬ HeapLaidOut 0x100000 63 4 (kheapAdd 0x100000 63 4 Kernel.loaded) ∧
      (kheapAdd 0x100000 63 4 Kernel.loaded).heapBitmap.length = 16 ∧
      ¬ (kheapAdd 0x100000 63 4 Kernel.loaded).blockBytes 15 ⊆
        span (kheapAdd 0x100000 63 4 Kernel.loaded).chunkStart 63 := by
  have h := kheapAdd_header 0x100000 63 4 Kernel.loaded
  have hlength : (kheapAdd 0x100000 63 4 Kernel.loaded).heapBitmap.length = 16 :=
    h.length_eq (by decide) (by decide)
  have hpast : ¬ (kheapAdd 0x100000 63 4 Kernel.loaded).blockBytes 15 ⊆
      span (kheapAdd 0x100000 63 4 Kernel.loaded).chunkStart 63 := fun hsub =>
    absurd ((h.blockBytes_subset_iff (by decide) (by decide) (by rw [hlength]; decide)).mp hsub) (by decide)
  refine ⟨fun hlaid => hpast ?_, hlength, hpast⟩
  have hblock := hlaid.blocks 15 (by rw [hlength]; decide)
  rwa [h.chunkSize] at hblock

end HeapHeader

end JurasOS
