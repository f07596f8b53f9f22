import JurasOS.Heap.Layout

/-!
# The use of the heap

`kmalloc` marks whole blocks and counts the bytes that were asked for, so the use and
the bitmap agree while every size is a multiple of the granularity. `GrainRun` is a
run on any heap, with the live blocks, where every request is of this kind, is
answered inside the bitmap, and is given back by a pointer that leads back to its
index. The bits of the bitmap belong to the live blocks, and the use counts them.
-/

namespace JurasOS

open Machine Alloc

section GrainRun

variable (addr memorySize : UInt32) (granularity : UInt16)

/-- Where the chunk of the heap starts. -/
def heapStart : UInt32 := addr + 28 + kheapBitmapSize memorySize granularity / 8

/-- The bits of a block: as many as its size takes, from its index on. -/
def blockBits (b : HeapBlock) : Set ℕ :=
  Set.Ico ((b.ptr - heapStart addr memorySize granularity).toNat / granularity.toNat)
    ((b.ptr - heapStart addr memorySize granularity).toNat / granularity.toNat +
      blockCount granularity b.size)

/-- A request for whole blocks that are free in the bitmap. -/
structure WholeRequest (s : Kernel) (size : UInt32) : Prop where
  dvd : granularity.toNat ∣ size.toNat
  wrap : size.toNat + granularity.toNat - 1 < 2 ^ 32
  room : ∃ j, Room (s.heapBitmap.bits s.mem) s.heapBitmap.length (blockCount granularity size) j

/-- `kfree` subtracts addresses as signed numbers: the distance has to be one, or is not divided. -/
def PtrLeadsBack (s : Kernel) (b : HeapBlock) : Prop :=
  (b.ptr - s.chunkStart).toNat < 2 ^ 31 ∨ granularity.toNat = 1

/-- A run of requests for whole blocks on a heap that `kheap_add` made, with the blocks that are live. -/
inductive GrainRun : Kernel → List HeapBlock → Prop
  | start (s : Kernel) : GrainRun (kheapAdd addr memorySize granularity s) []
  | kmalloc {s s' : Kernel} {live : List HeapBlock} {size ptr : UInt32} :
      GrainRun s live → WholeRequest granularity s size → kmalloc size s = .ok ptr s' →
        GrainRun s' (⟨ptr, size⟩ :: live)
  | kfree {s : Kernel} {live : List HeapBlock} (b : HeapBlock) :
      GrainRun s live → b ∈ live → PtrLeadsBack granularity s b →
      GrainRun (kfree b.ptr b.size s) (live.erase b)
  /-- Anything off the header and the bitmap is written to. -/
  | write {s : Kernel} {live : List HeapBlock} (m : Mem) :
      GrainRun s live →
        Set.EqOn m s.mem (span addr (28 + (kheapBitmapSize memorySize granularity / 8).toNat)) →
        GrainRun { s with mem := m } live

/-- The invariant of such a run: the bits of the bitmap are those of the live blocks, and the use
counts them. -/
structure GrainInv (s : Kernel) (live : List HeapBlock) : Prop where
  header : HeapHeader addr memorySize granularity s
  owns : Owns (blockBits addr memorySize granularity) ∅ (s.heapBitmap.marked s.mem) live
  used : s.chunkUsed.toNat = granularity.toNat * (s.heapBitmap.marked s.mem).ncard
  whole : ∀ b ∈ live, granularity.toNat ∣ b.size.toNat ∧ b.size.toNat + granularity.toNat - 1 < 2 ^ 32

end GrainRun

section GrainInv

variable {addr memorySize : UInt32} {granularity : UInt16} {s s' : Kernel} {live : List HeapBlock}
  {b : HeapBlock}

theorem marked_finite (s : Kernel) : (s.heapBitmap.marked s.mem).Finite :=
  (Set.finite_Iio s.heapBitmap.length).subset fun _ hf => hf.1

theorem ncard_blockBits (b : HeapBlock) :
    (blockBits addr memorySize granularity b).ncard = blockCount granularity b.size := by
  rw [blockBits, ← Finset.coe_Ico, Set.ncard_coe_finset, Nat.card_Ico, Nat.add_sub_cancel_left]

/-- The blocks of any bits of the bitmap are less than `2 ^ 32` bytes. -/
theorem HeapHeader.mul_ncard_lt (h : HeapHeader addr memorySize granularity s) (hpos : 1 ≤ granularity.toNat)
    {F : Set ℕ} (hF : F ⊆ Set.Iio s.heapBitmap.length) : granularity.toNat * F.ncard < 2 ^ 32 := by
  have hcard := Set.ncard_le_ncard hF (Set.finite_Iio _)
  rw [← Finset.coe_Iio, Set.ncard_coe_finset, Nat.card_Iio] at hcard
  rw [Nat.mul_comm]
  exact lt_of_le_of_lt (Nat.mul_le_mul_right _ hcard) (h.length_mul_lt hpos)

/-! ### The start -/

/-- A new heap has no bit set, when `kheap_add` clears its bitmap. -/
theorem GrainInv.start
    (hclear : 28 + (kheapBitmapSize memorySize granularity / 8).toNat ≤
      (kheapMemorySizeOf memorySize granularity).toNat) (s : Kernel) :
    GrainInv addr memorySize granularity (kheapAdd addr memorySize granularity s) [] := by
  have h := kheapAdd_header addr memorySize granularity s
  obtain ⟨-, -, -, h12, -, -, hmem⟩ := kheapAdd_loads addr memorySize granularity s
  generalize kheapAdd addr memorySize granularity s = t at h h12 hmem
  have hbyte : ∀ a ∈ span addr (28 + (kheapBitmapSize memorySize granularity / 8).toNat),
      memset addr 0 (kheapMemorySizeOf memorySize granularity) s.mem a = 0 :=
    fun a ha => memset_of_mem (span_mono hclear ha) 0 s.mem
  have hnone : t.heapBitmap.marked t.mem = ∅ := by
    refine Set.eq_empty_of_forall_notMem fun f hf => ?_
    obtain ⟨hlt, hset⟩ := hf
    have hspan := Bitmap.byteAddr_mem_span hlt
    rw [h.bitmap] at hspan hset
    rw [Bitmap.bits_of_zero] at hset
    · cases hset
    · rw [hmem (byteAddr_notMem_header _ _)]
      exact hbyte _ (span_offset_subset (le_refl (28 + _)) hspan)
  refine ⟨h, ?_, ?_, fun _ hb => absurd hb List.not_mem_nil⟩
  · rw [hnone]
    exact Owns.nil
  · rw [hnone, Set.ncard_empty, Nat.mul_zero, Kernel.chunkUsed, h.kheap, h12]
    rw [Mem.load32_eq_zero fun b hb => hbyte b (span_mono (Nat.le_add_right 28 _)
      (field_subset addr (by decide) hb))]
    rfl

/-! ### The steps -/

/-- The bits that a fill of blocks leaves, and the use that is written after it. -/
theorem HeapHeader.fill_bits (h : HeapHeader addr memorySize granularity s) {index count used : UInt32}
    {value : Bool} {t : Kernel}
    (ht : t = { s with mem := (bitmapFill s.heapBitmap index count value s.mem).store32 (addr + 12) used }) :
    HeapHeader addr memorySize granularity t ∧ t.chunkUsed = used ∧ ∀ f < 2 ^ 32,
      (f ∈ loopBits index count → s.heapBitmap.bits t.mem f = value) ∧
        (f ∉ loopBits index count → s.heapBitmap.bits t.mem f = s.heapBitmap.bits s.mem f) := by
  have hheader := h.fill index count used value
  rw [show s.kheap + 12 = addr + 12 by rw [h.kheap], ← ht] at hheader
  refine ⟨hheader, ?_, fun f hf => ?_⟩
  · rw [Kernel.chunkUsed, hheader.kheap, ht, Mem.load32_store32]
  · have hbits : s.heapBitmap.bits t.mem f =
        s.heapBitmap.bits (bitmapFill s.heapBitmap index count value s.mem) f := by
      rw [ht, h.bitmap]
      exact bits_store_used ..
    rw [hbits]
    exact bitmapFill_loop s.heapBitmap index count value s.mem hf

/-- A fill with set bits marks those of its blocks that are in the bitmap. -/
theorem HeapHeader.marked_fill_true (h : HeapHeader addr memorySize granularity s)
    {index count used : UInt32} {t : Kernel}
    (ht : t = { s with mem := (bitmapFill s.heapBitmap index count true s.mem).store32 (addr + 12) used }) :
    t.heapBitmap.marked t.mem =
      s.heapBitmap.marked s.mem ∪ (loopBits index count ∩ Set.Iio s.heapBitmap.length) := by
  have hlength : s.heapBitmap.length < 2 ^ 32 := UInt32.toNat_lt _
  obtain ⟨hheader, -, hbits⟩ := h.fill_bits ht
  rw [hheader.bitmap, ← h.bitmap]
  exact Bitmap.marked_union (fun f hf hlt => (hbits f (by omega)).1 hf) fun f hf hlt =>
    (hbits f (by omega)).2 hf

/-- A fill with clear bits lets go of its blocks. -/
theorem HeapHeader.marked_fill_false (h : HeapHeader addr memorySize granularity s)
    {index count used : UInt32} {t : Kernel}
    (ht : t = { s with mem := (bitmapFill s.heapBitmap index count false s.mem).store32 (addr + 12) used }) :
    t.heapBitmap.marked t.mem = s.heapBitmap.marked s.mem \ loopBits index count := by
  have hlength : s.heapBitmap.length < 2 ^ 32 := UInt32.toNat_lt _
  obtain ⟨hheader, -, hbits⟩ := h.fill_bits ht
  rw [hheader.bitmap, ← h.bitmap]
  exact Bitmap.marked_sdiff (fun f hf hlt => (hbits f (by omega)).1 hf) fun f hf hlt =>
    (hbits f (by omega)).2 hf

/-- The blocks that a fill inside the bitmap writes. -/
theorem loopBits_inter {index count : UInt32} {bitmap : Bitmap}
    (hend : index.toNat + count.toNat ≤ bitmap.length) :
    loopBits index count ∩ Set.Iio bitmap.length = Set.Ico index.toNat (index.toNat + count.toNat) := by
  have hlength : bitmap.length < 2 ^ 32 := UInt32.toNat_lt _
  rw [loopBits_eq_Ico (by omega)]
  exact Set.inter_eq_left.mpr fun f hf => lt_of_lt_of_le hf.2 hend

/-- The pointer that `kmalloc` returns leads to the block that was found. -/
theorem HeapHeader.blockBits_ptr (h : HeapHeader addr memorySize granularity s) (hpos : 1 ≤ granularity.toNat)
    {i : ℕ} (hi : i < s.heapBitmap.length) (size : UInt32) :
    blockBits addr memorySize granularity ⟨s.chunkStart + UInt32.ofNat i * granularity.toUInt32, size⟩ =
      Set.Ico i (i + blockCount granularity size) := by
  have hoffset := h.toNat_offset hpos hi
  rw [h.start] at hoffset ⊢
  rw [blockBits, heapStart, hoffset, Nat.mul_div_cancel _ hpos]

/-- What a call that returns has found, and the blocks that it marks. -/
theorem HeapHeader.kmalloc_marks (h : HeapHeader addr memorySize granularity s) {size ptr : UInt32}
    (hcall : kmalloc size s = .ok ptr s') :
    ∃ i, findRun (s.heapBitmap.bits s.mem) s.heapBitmap.length (kheapBitmapSize size granularity).toNat 0 =
        some i ∧
      ptr = s.chunkStart + UInt32.ofNat i * granularity.toUInt32 ∧ s' = JurasOS.kmallocMark size i s ∧
      s'.heapBitmap.marked s'.mem = s.heapBitmap.marked s.mem ∪
        (loopBits (UInt32.ofNat i) (kheapBitmapSize size granularity) ∩ Set.Iio s.heapBitmap.length) := by
  rw [h.kmalloc_eq] at hcall
  cases hfind : findRun (s.heapBitmap.bits s.mem) s.heapBitmap.length
      (kheapBitmapSize size granularity).toNat 0 with
  | none =>
    rw [hfind] at hcall
    cases hcall
  | some i =>
    rw [hfind] at hcall
    cases hcall
    exact ⟨i, rfl, rfl, rfl, h.marked_fill_true (h.kmallocMark_mem size i)⟩

/-- A result inside the bitmap marks a run of blocks that were clear. -/
theorem marked_run {i : ℕ} {count : UInt32}
    (hroom : Room (s.heapBitmap.bits s.mem) s.heapBitmap.length count.toNat i) :
    loopBits (UInt32.ofNat i) count ∩ Set.Iio s.heapBitmap.length = Set.Ico i (i + count.toNat) ∧
      Disjoint (Set.Ico i (i + count.toNat)) (s.heapBitmap.marked s.mem) := by
  obtain ⟨hend, hclear⟩ := hroom
  have hlength : s.heapBitmap.length < 2 ^ 32 := UInt32.toNat_lt _
  have hindex : (UInt32.ofNat i).toNat = i := by rw [UInt32.toNat_ofNat', Nat.mod_eq_of_lt (by omega)]
  refine ⟨by rw [loopBits_inter (by omega), hindex], Set.disjoint_left.mpr fun f hf hset => ?_⟩
  have hbit := hset.2
  rw [hclear f hf.1 hf.2] at hbit
  cases hbit

/-- `kmalloc` of whole blocks marks as many bits as it counts. -/
theorem GrainInv.kmalloc (h : GrainInv addr memorySize granularity s live) (hpos : 1 ≤ granularity.toNat)
    {size ptr : UInt32} (hrequest : WholeRequest granularity s size)
    (hcall : kmalloc size s = .ok ptr s') :
    GrainInv addr memorySize granularity s' (⟨ptr, size⟩ :: live) := by
  obtain ⟨hdvd, hwrap, hroom⟩ := hrequest
  have hcount := toNat_kheapBitmapSize hpos hwrap
  have hbytes := blockCount_of_dvd hpos hdvd
  obtain ⟨i, hfind, rfl, rfl, hmarked⟩ := h.header.kmalloc_marks hcall
  rw [← hcount] at hroom
  have hfits := (findRun_eq_some.mp hfind).2.1
  obtain ⟨hrun, hapart⟩ := marked_run (hfits.room (findRun_le (Or.inl hroom) hfind))
  obtain ⟨hheader, hused, -⟩ := h.header.fill_bits (h.header.kmallocMark_mem size i)
  have hblock := h.header.blockBits_ptr hpos hfits.1 size
  rw [hcount, ← hblock] at hrun hapart
  rw [hrun] at hmarked
  have hcard := Set.ncard_union_eq hapart.symm (marked_finite s) (Set.finite_Ico _ _)
  have hlt := hheader.mul_ncard_lt hpos
    (F := (kmallocMark size i s).heapBitmap.marked (kmallocMark size i s).mem) fun f hf => hf.1
  refine ⟨hheader, ?_, ?_, ?_⟩
  · rw [hmarked]
    exact h.owns.alloc hapart
  · rw [hmarked, hcard, ncard_blockBits, Nat.mul_add] at hlt
    rw [hmarked, hcard, ncard_blockBits, Nat.mul_add, ← h.used,
      Nat.mul_comm _ (blockCount _ _), hbytes, hused]
    rw [← h.used, Nat.mul_comm _ (blockCount _ _), hbytes] at hlt
    exact toNat_add_of_lt hlt
  · intro c hc
    rcases List.mem_cons.mp hc with rfl | hc
    · exact ⟨hdvd, hwrap⟩
    · exact h.whole c hc

/-- A pointer that leads back to its index does so for a block of the heap. -/
theorem HeapHeader.blockIndex_of_leadsBack (h : HeapHeader addr memorySize granularity s)
    (hpos : 1 ≤ granularity.toNat) (hback : PtrLeadsBack granularity s b) :
    (blockIndex b.ptr s.chunkStart granularity).toNat =
      (b.ptr - heapStart addr memorySize granularity).toNat / granularity.toNat := by
  have hg : granularity.toUInt32.toNat = granularity.toNat := UInt16.toNat_toUInt32 _
  have hlt := granularity.toNat_lt
  have hstart : s.chunkStart = heapStart addr memorySize granularity := h.start
  rw [blockIndex, ← hstart]
  show ((b.ptr - s.chunkStart).toInt32 / granularity.toUInt32.toInt32).toUInt32.toNat = _
  rcases hback with hnear | hone
  · rw [toInt32_div hnear (by omega), UInt32.toNat_div, hg]
  · have hunit : granularity = 1 := UInt16.toNat_inj.mp hone
    rw [hone, Nat.div_one, hunit]
    show ((b.ptr - s.chunkStart).toInt32 / 1).toUInt32.toNat = _
    rw [Int32.div_one]
    rfl

/-- `kfree` of such a block clears its bits. -/
theorem HeapHeader.kfree_clears (h : HeapHeader addr memorySize granularity s) (hpos : 1 ≤ granularity.toNat)
    (hwrap : b.size.toNat + granularity.toNat - 1 < 2 ^ 32) (hback : PtrLeadsBack granularity s b)
    (hin : blockBits addr memorySize granularity b ⊆ Set.Iio s.heapBitmap.length) :
    (kfree b.ptr b.size s).heapBitmap.marked (kfree b.ptr b.size s).mem =
      s.heapBitmap.marked s.mem \ blockBits addr memorySize granularity b := by
  have hcount := toNat_kheapBitmapSize hpos hwrap
  have hindex := h.blockIndex_of_leadsBack hpos hback
  have hlength : s.heapBitmap.length < 2 ^ 32 := UInt32.toNat_lt _
  have hend : (blockIndex b.ptr s.chunkStart granularity).toNat + blockCount granularity b.size ≤ 2 ^ 32 := by
    by_cases hzero : blockCount granularity b.size = 0
    · have := UInt32.toNat_lt (blockIndex b.ptr s.chunkStart granularity)
      omega
    · have hlast := hin (a := (blockIndex b.ptr s.chunkStart granularity).toNat +
        blockCount granularity b.size - 1) ⟨by omega, by omega⟩
      rw [Set.mem_Iio] at hlast
      omega
  rw [h.marked_fill_false (h.kfree_eq b.ptr b.size), loopBits_eq_Ico (by omega), hcount, hindex]
  rfl

/-- `kfree` of a live block clears its bits, and counts them down. -/
theorem GrainInv.kfree (h : GrainInv addr memorySize granularity s live) (hpos : 1 ≤ granularity.toNat)
    (hb : b ∈ live) (hback : PtrLeadsBack granularity s b) :
    GrainInv addr memorySize granularity (kfree b.ptr b.size s) (live.erase b) := by
  obtain ⟨hdvd, hwrap⟩ := h.whole b hb
  have hbytes := blockCount_of_dvd hpos hdvd
  have hslots := h.owns.slots_subset hb
  have hmarked := h.header.kfree_clears hpos hwrap hback fun f hf => (hslots hf).1
  obtain ⟨t, ht⟩ : ∃ t, t = JurasOS.kfree b.ptr b.size s := ⟨_, rfl⟩
  obtain ⟨hheader, hused, -⟩ := h.header.fill_bits (ht.trans (h.header.kfree_eq b.ptr b.size))
  rw [← ht] at hmarked ⊢
  refine ⟨hheader, ?_, ?_, fun c hc => h.whole c (List.mem_of_mem_erase hc)⟩
  · rw [hmarked]
    exact h.owns.free hb
  · have hcard := Set.ncard_sdiff_add_ncard_of_subset hslots (marked_finite s)
    rw [ncard_blockBits] at hcard
    have hsum := h.used
    rw [← hcard, Nat.mul_add, Nat.mul_comm _ (blockCount _ _), hbytes] at hsum
    rw [hmarked, hused, UInt32.toNat_sub_of_le _ _ (UInt32.le_iff_toNat_le.mpr (by omega))]
    omega

/-- A write off the header and the bitmap changes neither. -/
theorem GrainInv.write (h : GrainInv addr memorySize granularity s live) {m : Mem}
    (hm : Set.EqOn m s.mem (span addr (28 + (kheapBitmapSize memorySize granularity / 8).toNat))) :
    GrainInv addr memorySize granularity { s with mem := m } live := by
  have hfirst : Set.EqOn m s.mem (span addr 28) := hm.mono (span_mono (Nat.le_add_right 28 _))
  have hheader := h.header.congr (hfirst.mono header_subset)
  have hbitmap : Kernel.heapBitmap { s with mem := m } = s.heapBitmap :=
    hheader.bitmap.trans h.header.bitmap.symm
  have hmarked : s.heapBitmap.marked m = s.heapBitmap.marked s.mem := by
    refine Bitmap.marked_congr (hm.mono ?_)
    rw [h.header.bitmap]
    exact span_offset_subset (i := 28) (le_refl (28 + _))
  have hused : Kernel.chunkUsed { s with mem := m } = s.chunkUsed := by
    rw [Kernel.chunkUsed, Kernel.chunkUsed, h.header.kheap]
    exact Mem.load32_congr (hfirst.mono (field_subset addr (by decide)))
  refine ⟨hheader, ?_, ?_, h.whole⟩
  · rw [hbitmap]
    show Owns _ ∅ (s.heapBitmap.marked m) live
    rw [hmarked]
    exact h.owns
  · rw [hused, hbitmap]
    show s.chunkUsed.toNat = granularity.toNat * (s.heapBitmap.marked m).ncard
    rw [hmarked]
    exact h.used

/-- The invariant holds through a run. -/
theorem GrainInv.of_run (hpos : 1 ≤ granularity.toNat)
    (hclear : 28 + (kheapBitmapSize memorySize granularity / 8).toNat ≤
      (kheapMemorySizeOf memorySize granularity).toNat)
    (hrun : GrainRun addr memorySize granularity s live) : GrainInv addr memorySize granularity s live := by
  induction hrun with
  | start s => exact GrainInv.start hclear s
  | kmalloc _ hrequest hcall ih => exact ih.kmalloc hpos hrequest hcall
  | kfree b _ hb hback ih => exact ih.kfree hpos hb hback
  | write m _ hm ih => exact ih.write hm

/-- **The use is a multiple of the granularity**: the granularity times the number of set bits, in every state
that requests for whole blocks lead to. -/
theorem grainRun_used (hpos : 1 ≤ granularity.toNat)
    (hclear : 28 + (kheapBitmapSize memorySize granularity / 8).toNat ≤
      (kheapMemorySizeOf memorySize granularity).toNat)
    (hrun : GrainRun addr memorySize granularity s live) :
    s.chunkUsed.toNat = granularity.toNat * (s.heapBitmap.marked s.mem).ncard ∧
      granularity.toNat ∣ s.chunkUsed.toNat := by
  have h := (GrainInv.of_run hpos hclear hrun).used
  exact ⟨h, Dvd.intro _ h.symm⟩

/-- A request of the new heap of sixteen blocks of four bytes. -/
theorem kmalloc_newHeap (size : UInt32) (hsize : 0 < size.toNat) (hroom : blockCount 4 size ≤ 16) :
    ∃ s ptr s', s = kheapAdd 0x100000 64 4 Kernel.loaded ∧
      Room (s.heapBitmap.bits s.mem) s.heapBitmap.length (blockCount 4 size) 0 ∧ kmalloc size s = .ok ptr s' ∧
      s'.chunkUsed = size ∧ s'.heapBitmap.marked s'.mem = Set.Ico 0 (blockCount 4 size) := by
  obtain ⟨s, hs, hlength, -, hclear⟩ := smallHeap_clear
  have h : HeapHeader 0x100000 64 4 s := hs ▸ kheapAdd_header 0x100000 64 4 Kernel.loaded
  have hzero : s.chunkUsed = 0 := hs ▸ (kheapAdd_ok smallHeap Kernel.loaded).1.chunkUsed
  obtain ⟨hle, hlt⟩ := blockCount_spec (show 1 ≤ (4 : UInt16).toNat by decide) size
  have hgran : (4 : UInt16).toNat = 4 := rfl
  rw [hgran] at hle hlt
  have hcount : (kheapBitmapSize size 4).toNat = blockCount 4 size :=
    toNat_kheapBitmapSize (by decide) (by rw [hgran]; omega)
  have hfirst : Room (s.heapBitmap.bits s.mem) s.heapBitmap.length (blockCount 4 size) 0 :=
    ⟨by omega, fun k _ hk => hclear k (by omega)⟩
  have hfind : findRun (s.heapBitmap.bits s.mem) s.heapBitmap.length (blockCount 4 size) 0 = some 0 :=
    findRun_eq_some.mpr ⟨le_rfl, hfirst.fits (by omega), fun j _ hj => absurd hj (Nat.not_lt_zero j)⟩
  have hrun := h.kmalloc_eq size
  rw [hcount, hfind] at hrun
  have hmark := h.kmallocMark_mem size 0
  have hindex : (UInt32.ofNat 0).toNat = 0 := rfl
  obtain ⟨-, hused, -⟩ := h.fill_bits hmark
  have hmarked := h.marked_fill_true hmark
  have hnone : s.heapBitmap.marked s.mem = ∅ := by
    refine Set.eq_empty_of_forall_notMem fun f hf => ?_
    have hset := hf.2
    rw [hclear f (hlength ▸ hf.1)] at hset
    cases hset
  rw [loopBits_inter (by rw [hcount, hlength, hindex]; omega), hcount, hindex, Nat.zero_add, hnone,
    Set.empty_union] at hmarked
  exact ⟨s, _, _, hs, hfirst, hrun, by rw [hused, hzero, UInt32.zero_add], hmarked⟩

/-- Eight bytes are two blocks. -/
theorem grainRun_used_smallHeap : ∃ s ptr, kmalloc 8 (kheapAdd 0x100000 64 4 Kernel.loaded) = .ok ptr s ∧
    s.chunkUsed.toNat = 4 * (s.heapBitmap.marked s.mem).ncard := by
  obtain ⟨s, ptr, s', rfl, hroom, hcall, -, -⟩ := kmalloc_newHeap 8 (by decide) (by decide)
  have hrun : GrainRun 0x100000 64 4 s' [⟨ptr, 8⟩] :=
    .kmalloc (.start _) ⟨by decide, by decide, 0, hroom⟩ hcall
  exact ⟨s', ptr, hcall, (grainRun_used (by decide) (by decide) hrun).1⟩

/-- Five bytes are two blocks too, but counted as five. -/
theorem kmalloc_used_five : ∃ s ptr, kmalloc 5 (kheapAdd 0x100000 64 4 Kernel.loaded) = .ok ptr s ∧
    s.chunkUsed.toNat = 5 ∧ (s.heapBitmap.marked s.mem).ncard = 2 := by
  obtain ⟨s, ptr, s', rfl, -, hcall, hused, hmarked⟩ := kmalloc_newHeap 5 (by decide) (by decide)
  refine ⟨s', ptr, hcall, by rw [hused]; rfl, ?_⟩
  rw [hmarked, ← Finset.coe_Ico, Set.ncard_coe_finset, Nat.card_Ico]
  decide

end GrainInv

end JurasOS
