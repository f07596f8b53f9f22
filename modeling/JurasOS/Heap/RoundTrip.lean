import JurasOS.Heap.Exhaustion

/-!
# `kmalloc` and `kfree`, one after the other

Where there is room for a size, `kmalloc` returns the lowest block and marks it,
and `kfree` with the pointer and the size that it returned puts everything back:
the pointer leads back to the index of the block, both round the size up alike,
and the bits that were set are cleared again. So the heap is the state it was,
every byte of it.
-/

namespace JurasOS

open Machine Alloc

section HeapHeader

variable {addr memorySize : UInt32} {granularity : UInt16} {s : Kernel}

/-- A write of the use changes no bit. -/
theorem bits_store_used (size used : UInt32) (m : Mem) (f : ℕ) :
    Bitmap.bits ⟨size, addr + 28⟩ (m.store32 (addr + 12) used) f = Bitmap.bits ⟨size, addr + 28⟩ m f := by
  refine Bitmap.bits_congr (m.eqOn_store32 _ _ fun hmem => ?_)
  exact byteAddr_notMem_header _ _ (field_subset addr (by decide) hmem)

/-- Writing bits does not change the use. -/
theorem load_used_fill (size index count : UInt32) (value : Bool) (m : Mem) :
    (bitmapFill ⟨size, addr + 28⟩ index count value m).load32 (addr + 12) = m.load32 (addr + 12) :=
  Mem.load32_congr ((bitmapFill_header size index count value m).mono (field_subset addr (by decide)))

/-- The memory after `kmalloc` has found a run. -/
theorem HeapHeader.kmallocMark_mem (h : HeapHeader addr memorySize granularity s) (size : UInt32) (i : ℕ) :
    JurasOS.kmallocMark size i s = { s with
      mem := (bitmapFill s.heapBitmap (UInt32.ofNat i) (kheapBitmapSize size granularity) true
        s.mem).store32 (addr + 12) (s.chunkUsed + size) } := by
  have hused := @load_used_fill addr (kheapBitmapSize memorySize granularity / 8) (UInt32.ofNat i)
    (kheapBitmapSize size granularity) true s.mem
  rw [JurasOS.kmallocMark, h.chunkGranularity]
  simp only [Kernel.chunkUsed, h.kheap, h.bitmap, hused]

/-- The memory after `kfree`. -/
theorem HeapHeader.kfree_eq (h : HeapHeader addr memorySize granularity s) (ptr size : UInt32) :
    kfree ptr size s = { s with
      mem := (bitmapFill s.heapBitmap (blockIndex ptr s.chunkStart granularity)
        (kheapBitmapSize size granularity) false s.mem).store32 (addr + 12) (s.chunkUsed - size) } := by
  have hused := @load_used_fill addr (kheapBitmapSize memorySize granularity / 8)
    (blockIndex ptr s.chunkStart granularity) (kheapBitmapSize size granularity) false s.mem
  rw [kfree, h.chunkGranularity]
  simp only [Kernel.chunkUsed, h.kheap, h.bitmap, hused]

/-- Setting clear bits and clearing them again, with the use counted up and down, restores the memory. -/
theorem mem_restored {bytes index count used : UInt32} {bitmap : Bitmap} {m m₁ m₂ : Mem}
    (hbitmap : bitmap = ⟨bytes, addr + 28⟩) (hend : index.toNat + count.toNat ≤ 2 ^ 32)
    (hclear : Clear (bitmap.bits m) index.toNat (index.toNat + count.toNat))
    (hm₁ : m₁ = (bitmapFill bitmap index count true m).store32 (addr + 12) (m.load32 (addr + 12) + used))
    (hm₂ : m₂ = (bitmapFill bitmap index count false m₁).store32 (addr + 12)
      (m₁.load32 (addr + 12) - used)) :
    m₂ = m := by
  obtain ⟨hset, hsetMem⟩ := bitmapFill_bits bitmap hend true m
  obtain ⟨hreset, hresetMem⟩ := bitmapFill_bits bitmap hend false m₁
  refine @Bitmap.mem_eq_of_bits bitmap _ _ (Set.Ico index.toNat (index.toNat + count.toNat))
    (fun f hf => ?_) fun a ha => ?_
  · have hbits₂ : bitmap.bits m₂ f = bitmap.bits (bitmapFill bitmap index count false m₁) f := by
      rw [hm₂, hbitmap, bits_store_used]
    have hbits₁ : bitmap.bits m₁ f = bitmap.bits (bitmapFill bitmap index count true m) f := by
      rw [hm₁, hbitmap, bits_store_used]
    rw [hbits₂, hreset f hf, hbits₁, hset f hf]
    split
    · exact (hclear f (by omega) (by omega)).symm
    · rfl
  · by_cases hused : a ∈ span (addr + 12) 4
    · -- the use is what it was
      refine Mem.eqOn_of_load32 ?_ hused
      rw [hm₂, Mem.load32_store32, hm₁, Mem.load32_store32, UInt32.add_sub_cancel]
    · have hstore₂ := Mem.eqOn_store32 (bitmapFill bitmap index count false m₁) (addr + 12)
        (m₁.load32 (addr + 12) - used) hused
      have hstore₁ := Mem.eqOn_store32 (bitmapFill bitmap index count true m) (addr + 12)
        (m.load32 (addr + 12) + used) hused
      rw [hm₂, hstore₂, hresetMem ha, hm₁, hstore₁, hsetMem ha]

/-- `kfree` clears what `kmalloc` has marked, when its pointer leads back to the index. -/
theorem HeapHeader.kfree_kmallocMark (h : HeapHeader addr memorySize granularity s) {size ptr : UInt32}
    {i : ℕ} (hi : i < 2 ^ 32) (hend : i + (kheapBitmapSize size granularity).toNat ≤ 2 ^ 32)
    (hclear : Clear (s.heapBitmap.bits s.mem) i (i + (kheapBitmapSize size granularity).toNat))
    (hindex : blockIndex ptr s.chunkStart granularity = UInt32.ofNat i) :
    kfree ptr size (JurasOS.kmallocMark size i s) = s := by
  have hmark := h.kmallocMark size i
  have htoNat : (UInt32.ofNat i).toNat = i := by rw [UInt32.toNat_ofNat', Nat.mod_eq_of_lt hi]
  obtain ⟨t, ht⟩ : ∃ t, t = JurasOS.kmallocMark size i s := ⟨_, rfl⟩
  have hsame := ht.trans (h.kmallocMark_mem size i)
  have hmem := congrArg Kernel.mem hsame
  rw [Kernel.chunkUsed, h.kheap] at hmem
  rw [← ht] at hmark ⊢
  have hbitmap : t.heapBitmap = s.heapBitmap := hmark.bitmap.trans h.bitmap.symm
  have hstart : t.chunkStart = s.chunkStart := hmark.start.trans h.start.symm
  rw [← htoNat] at hend hclear
  have hrestored := mem_restored h.bitmap hend hclear hmem rfl
  have hused : t.chunkUsed = t.mem.load32 (addr + 12) := by rw [Kernel.chunkUsed, hmark.kheap]
  rw [hmark.kfree_eq, hstart, hindex, hbitmap, hused, hrestored, hsame]

/-- The blocks of the bitmap are in the chunk, below `2 ^ 31`. -/
theorem HeapHeader.block_lt (h : HeapHeader addr memorySize granularity s) (hpos : 1 ≤ granularity.toNat)
    (hbelow : addr.toNat + 28 + (kheapBitmapSize memorySize granularity / 8).toNat + memorySize.toNat ≤
      2 ^ 31)
    {i : ℕ} (hi : i < s.heapBitmap.length) :
    s.chunkStart.toNat = addr.toNat + 28 + (kheapBitmapSize memorySize granularity / 8).toNat ∧
      i * granularity.toNat < memorySize.toNat := by
  have hg : granularity.toUInt32.toNat = granularity.toNat := UInt16.toNat_toUInt32 _
  have hlt := granularity.toNat_lt
  constructor
  · have hheader : (addr + 28).toNat = addr.toNat + 28 := toNat_add_ofNat (i := 28) (by omega)
    rw [h.start, toNat_add_of_lt (by omega), hheader]
  · have hsum : (memorySize + granularity.toUInt32 - 1).toNat = memorySize.toNat + granularity.toNat - 1 := by
      rw [UInt32.toNat_sub, UInt32.toNat_add, UInt32.toNat_one, hg]
      omega
    have hblocks := (Nat.le_div_iff_mul_le hpos).mp (h.length_le.trans' hi)
    rw [hsum, Nat.succ_mul] at hblocks
    omega

/-- The pointer that `kmalloc` returns leads back to the index of its block. -/
theorem HeapHeader.blockIndex_eq (h : HeapHeader addr memorySize granularity s)
    (hpos : 1 ≤ granularity.toNat)
    (hbelow : addr.toNat + 28 + (kheapBitmapSize memorySize granularity / 8).toNat + memorySize.toNat ≤
      2 ^ 31)
    {i : ℕ} (hi : i < s.heapBitmap.length) :
    blockIndex (s.chunkStart + UInt32.ofNat i * granularity.toUInt32) s.chunkStart granularity =
      UInt32.ofNat i := by
  have hg : granularity.toUInt32.toNat = granularity.toNat := UInt16.toNat_toUInt32 _
  have hlt := granularity.toNat_lt
  have hoffset := h.toNat_offset hpos hi
  have hblock := (h.block_lt hpos hbelow hi).2
  have hle : i ≤ i * granularity.toNat := Nat.le_mul_of_pos_right i hpos
  rw [blockIndex]
  show ((s.chunkStart + UInt32.ofNat i * granularity.toUInt32 - s.chunkStart).toInt32 / _).toUInt32 = _
  rw [toInt32_div (by omega) (by omega), ← UInt32.toNat_inj, UInt32.toNat_div, hoffset, hg,
    UInt32.toNat_ofNat', Nat.mul_div_cancel _ hpos, Nat.mod_eq_of_lt (by omega)]

/-- **`kmalloc` returns the lowest block with room, and `kfree` right after it restores the heap**, on any
heap below `2 ^ 31`, whatever its bitmap and its use. -/
theorem kmalloc_kfree (h : HeapHeader addr memorySize granularity s) (hpos : 1 ≤ granularity.toNat)
    (hbelow : addr.toNat + 28 + (kheapBitmapSize memorySize granularity / 8).toNat + memorySize.toNat ≤
      2 ^ 31)
    {size : UInt32} (hsize : 1 ≤ size.toNat) (hwrap : size.toNat + granularity.toNat - 1 < 2 ^ 32)
    (hroom : ∃ j, Room (s.heapBitmap.bits s.mem) s.heapBitmap.length (blockCount granularity size) j) :
    ∃ i ptr s', Room (s.heapBitmap.bits s.mem) s.heapBitmap.length (blockCount granularity size) i ∧
      (∀ k < i, ¬ Room (s.heapBitmap.bits s.mem) s.heapBitmap.length (blockCount granularity size) k) ∧
      kmalloc size s = .ok ptr s' ∧ ptr.toNat = s.chunkStart.toNat + i * granularity.toNat ∧
      s' = { s with mem := s'.mem } ∧
      (∀ f < 2 ^ 32, s.heapBitmap.bits s'.mem f =
        if i ≤ f ∧ f < i + blockCount granularity size then true else s.heapBitmap.bits s.mem f) ∧
      Set.EqOn s'.mem s.mem
        (s.heapBitmap.bytes (Set.Ico i (i + blockCount granularity size)) ∪ span (addr + 12) 4)ᶜ ∧
      s'.chunkUsed = s.chunkUsed + size ∧ kfree ptr size s' = s := by
  have hcount : (kheapBitmapSize size granularity).toNat = blockCount granularity size :=
    toNat_kheapBitmapSize hpos hwrap
  have hcountPos : 0 < blockCount granularity size := Nat.div_pos (by omega) hpos
  obtain ⟨j, hj⟩ := hroom
  obtain ⟨i, hfind, -, hi, hmin⟩ := findRun_of_room hcountPos hj
  have hend := hi.1
  have hlength : s.heapBitmap.length < 2 ^ 32 := UInt32.toNat_lt _
  have hlt : i < s.heapBitmap.length := by omega
  obtain ⟨hstart, hblock⟩ := h.block_lt hpos hbelow hlt
  have hrun := h.kmalloc_eq size
  rw [hcount, hfind] at hrun
  have htoNat : (UInt32.ofNat i).toNat = i := by rw [UInt32.toNat_ofNat', Nat.mod_eq_of_lt (by omega)]
  obtain ⟨hbits, hmem⟩ := bitmapFill_bits s.heapBitmap
    (by omega : (UInt32.ofNat i).toNat + (kheapBitmapSize size granularity).toNat ≤ 2 ^ 32) true s.mem
  rw [htoNat, hcount] at hbits hmem
  have hmark := h.kmallocMark_mem size i
  refine ⟨i, _, _, hi, hmin, hrun, ?_, ?_, fun f hf => ?_, fun a ha => ?_, ?_, ?_⟩
  · have hoffset := h.toNat_offset hpos hlt
    rw [UInt32.add_comm, UInt32.add_sub_cancel] at hoffset
    rw [toNat_add_of_lt (by omega), hoffset]
  · rw [hmark]
  · rw [hmark, ← hbits f hf, h.bitmap]
    exact bits_store_used ..
  · rw [Set.mem_compl_iff, Set.mem_union, not_or] at ha
    rw [hmark]
    exact (Mem.eqOn_store32 _ _ _ ha.2).trans (hmem ha.1)
  · rw [Kernel.chunkUsed, (h.kmallocMark size i).kheap, hmark, Mem.load32_store32]
  · refine h.kfree_kmallocMark (by omega) (by omega) ?_ (h.blockIndex_eq hpos hbelow hlt)
    rw [hcount]
    exact hi.2

/-- Five bytes of the new heap of sixteen blocks, taken and given back. -/
theorem kmalloc_kfree_smallHeap : ∃ s ptr s', s = kheapAdd 0x100000 64 4 Kernel.loaded ∧
    kmalloc 5 s = .ok ptr s' ∧ kfree ptr 5 s' = s := by
  obtain ⟨s, hs, hlength, -, hclear⟩ := smallHeap_clear
  have hheader : HeapHeader 0x100000 64 4 s := hs ▸ kheapAdd_header 0x100000 64 4 Kernel.loaded
  have hroom : Room (s.heapBitmap.bits s.mem) s.heapBitmap.length (blockCount 4 5) 0 := by
    rw [hlength]
    exact ⟨by decide, fun k _ hk => hclear k (lt_of_lt_of_le hk (by decide))⟩
  obtain ⟨-, ptr, s', -, -, hrun, -, -, -, -, -, hfree⟩ :=
    kmalloc_kfree hheader (by decide) (by decide) (by decide : 1 ≤ (5 : UInt32).toNat) (by decide) ⟨0, hroom⟩
  exact ⟨s, ptr, s', hs, hrun, hfree⟩

end HeapHeader

end JurasOS
