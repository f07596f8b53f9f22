import JurasOS.Heap.Runs

/-!
# The end of the heap

What `kmalloc` does at the end of the bitmap, on any heap: any region, any size of
a block, and any calls before it, also ones that freed what was not allocated.
Such calls write bits after the header only, so the header stays as `kheap_add`
wrote it (`HeapHeader`). The search cuts its window short at the end of the
bitmap, so a clear tail is taken for a run of any length.
-/

namespace JurasOS

open Machine Alloc

/-- The header of a heap is as `kheap_add` wrote it, but for the use. -/
structure HeapHeader (addr memorySize : UInt32) (granularity : UInt16) (s : Kernel) : Prop where
  kheap : s.kheap = addr
  bitmap : s.heapBitmap = ⟨kheapBitmapSize memorySize granularity / 8, addr + 28⟩
  chunkSize : s.chunkSize = memorySize
  chunkGranularity : s.chunkGranularity = granularity
  start : s.chunkStart = addr + 28 + kheapBitmapSize memorySize granularity / 8

/-- A run of calls on a heap that `kheap_add` made. -/
inductive HeapCalls (addr memorySize : UInt32) (granularity : UInt16) : Kernel → Prop
  | start (s : Kernel) : HeapCalls addr memorySize granularity (kheapAdd addr memorySize granularity s)
  | kmalloc {s s' : Kernel} {size ptr : UInt32} :
      HeapCalls addr memorySize granularity s → kmalloc size s = .ok ptr s' →
      HeapCalls addr memorySize granularity s'
  | kfree {s : Kernel} (ptr size : UInt32) :
      HeapCalls addr memorySize granularity s → HeapCalls addr memorySize granularity (kfree ptr size s)
  /-- Anything off the header is written to. -/
  | write {s : Kernel} (m : Mem) : HeapCalls addr memorySize granularity s → Set.EqOn m s.mem (span addr 28) →
      HeapCalls addr memorySize granularity { s with mem := m }

section HeapHeader

variable {addr memorySize : UInt32} {granularity : UInt16} {s s' : Kernel}

theorem kheapAdd_header (addr memorySize : UInt32) (granularity : UInt16) (s : Kernel) :
    HeapHeader addr memorySize granularity (kheapAdd addr memorySize granularity s) := by
  obtain ⟨h0, h4, h8, -, h16, h24, -⟩ := kheapAdd_loads addr memorySize granularity s
  exact ⟨rfl, congrArg₂ Bitmap.mk h0 h4, h8, h16, h24⟩

/-- The header depends on its bytes only, and not on those of the use. -/
theorem HeapHeader.congr (h : HeapHeader addr memorySize granularity s) {m : Mem}
    (hm : Set.EqOn m s.mem (span addr 12 ∪ span (addr + 16) 12)) :
    HeapHeader addr memorySize granularity { s with mem := m } := by
  have hfirst : ∀ i : UInt32, i.toNat + 4 ≤ 12 → m.load32 (addr + i) = s.mem.load32 (addr + i) := by
    intro i hi
    exact Mem.load32_congr (hm.mono ((span_offset_subset hi).trans Set.subset_union_left))
  have hhead : m.load32 addr = s.mem.load32 addr := by simpa using hfirst 0 (by decide)
  have hgran : m.load16 (addr + 16) = s.mem.load16 (addr + 16) :=
    Mem.load16_congr (hm.mono ((span_mono (by omega)).trans Set.subset_union_right))
  have hlast : m.load32 (addr + 24) = s.mem.load32 (addr + 24) := by
    have hsub : span (addr + 16 + 8) 4 ⊆ span (addr + 16) 12 := span_offset_subset (by decide)
    rw [UInt32.add_assoc] at hsub
    exact Mem.load32_congr (hm.mono (hsub.trans Set.subset_union_right))
  obtain ⟨hkheap, hbitmap, hsize, hgranularity, hstart⟩ := h
  simp only [Kernel.heapBitmap, Kernel.chunkSize, Kernel.chunkGranularity, Kernel.chunkStart, hkheap]
    at hbitmap hsize hgranularity hstart
  constructor <;>
    simp only [Kernel.heapBitmap, Kernel.chunkSize, Kernel.chunkGranularity, Kernel.chunkStart, hkheap, hhead,
      hfirst 4 (by decide), hfirst 8 (by decide), hgran, hlast, hbitmap, hsize, hgranularity, hstart]

/-- No bit lies in the header. -/
theorem byteAddr_notMem_header (size index : UInt32) :
    Bitmap.byteAddr ⟨size, addr + 28⟩ index ∉ span addr 28 := by
  have hlt := index.toNat_lt
  rw [Bitmap.byteAddr, UInt32.add_assoc, mem_span, UInt32.add_comm, UInt32.add_sub_cancel, UInt32.toNat_add,
    UInt32.toNat_div]
  show ¬ (28 + index.toNat / 8) % 2 ^ 32 < 28
  omega

/-- Writing bits, however many, writes bytes after the header. -/
theorem bitmapFill_header (size index count : UInt32) (value : Bool) (m : Mem) :
    Set.EqOn (bitmapFill ⟨size, addr + 28⟩ index count value m) m (span addr 28) := by
  refine times_inv (P := fun _ m' => Set.EqOn m' m (span addr 28)) (fun _ _ => rfl) ?_
  intro i _ m' ih a ha
  rw [eqOn_bitmapSet m' _ _ value ?_, ih ha]
  rw [Set.mem_compl_iff, Set.mem_singleton_iff]
  rintro rfl
  exact byteAddr_notMem_header _ _ ha

theorem header_subset : span addr 12 ∪ span (addr + 16) 12 ⊆ span addr 28 :=
  Set.union_subset (span_mono (by omega)) (span_offset_subset (by decide))

/-- Marking the blocks of a size, and counting the size, keeps the header. -/
theorem HeapHeader.fill (h : HeapHeader addr memorySize granularity s) (index count used : UInt32)
    (value : Bool) :
    HeapHeader addr memorySize granularity
      { s with mem := (bitmapFill s.heapBitmap index count value s.mem).store32 (s.kheap + 12) used } := by
  refine h.congr fun a ha => ?_
  have hused : Disjoint (span addr 12 ∪ span (addr + 16) 12) (span (addr + 12) 4) := by
    have hfirst : Disjoint (span (addr + 0) 12) (span (addr + 12) 4) :=
      disjoint_field addr (by decide) (by decide) (by decide)
    rw [UInt32.add_zero] at hfirst
    exact Set.disjoint_union_left.mpr ⟨hfirst, disjoint_field addr (by decide) (by decide) (by decide)⟩
  rw [h.kheap, Mem.eqOn_store32 _ _ _ (Set.disjoint_left.mp hused ha), h.bitmap]
  exact bitmapFill_header _ _ _ _ _ (header_subset ha)

theorem HeapHeader.kmallocMark (h : HeapHeader addr memorySize granularity s) (size : UInt32) (index : ℕ) :
    HeapHeader addr memorySize granularity (kmallocMark size index s) :=
  h.fill _ _ _ true

/-- `kmalloc` panics, with nothing changed, when its search fails, and marks what the search finds
otherwise. -/
theorem HeapHeader.kmalloc_eq (h : HeapHeader addr memorySize granularity s) (size : UInt32) :
    kmalloc size s =
      match findRun (s.heapBitmap.bits s.mem) s.heapBitmap.length
          (kheapBitmapSize size granularity).toNat 0 with
      | none => .error .panic s
      | some index => .ok (s.chunkStart + UInt32.ofNat index * granularity.toUInt32)
          (JurasOS.kmallocMark size index s) := by
  rw [kmalloc, bind_of_ok (get_apply s), h.chunkGranularity]
  cases findRun (s.heapBitmap.bits s.mem) s.heapBitmap.length (kheapBitmapSize size granularity).toNat 0 with
  | none => rfl
  | some index =>
    have hmark := h.kmallocMark size index
    show (modify (JurasOS.kmallocMark size index) >>= _ : KernelM UInt32) s = _
    rw [bind_of_ok (modify_apply ..), bind_of_ok (get_apply _), pure_apply, hmark.chunkGranularity,
      hmark.start, h.start]

/-- **The header stays as it was made**, through any calls. -/
theorem HeapHeader.of_calls (hcalls : HeapCalls addr memorySize granularity s) :
    HeapHeader addr memorySize granularity s := by
  induction hcalls with
  | start s => exact kheapAdd_header addr memorySize granularity s
  | @kmalloc s s' size ptr _ hcall ih =>
    rw [ih.kmalloc_eq] at hcall
    split at hcall
    · cases hcall
    · cases hcall
      exact ih.kmallocMark _ _
  | kfree ptr size _ ih => exact ih.fill _ _ _ false
  | write m _ hm ih => exact ih.congr (hm.mono header_subset)

/-! ### Where `kmalloc` keeps its promise -/

/-- The bitmap has a bit for a block of the region at most. -/
theorem HeapHeader.length_le (h : HeapHeader addr memorySize granularity s) :
    s.heapBitmap.length ≤ (memorySize + granularity.toUInt32 - 1).toNat / granularity.toNat := by
  have hg : granularity.toUInt32.toNat = granularity.toNat := UInt16.toNat_toUInt32 _
  obtain ⟨x, hx⟩ : ∃ x, x = memorySize + granularity.toUInt32 - 1 := ⟨_, rfl⟩
  have hle : s.heapBitmap.length ≤ (x / granularity.toUInt32 / 8).toNat * 8 := by
    rw [h.bitmap, kheapBitmapSize, ← hx, Bitmap.length, UInt32.toNat_mul]
    exact Nat.mod_le _ _
  rw [UInt32.toNat_div, UInt32.toNat_div, hg] at hle
  change _ ≤ x.toNat / granularity.toNat / 8 * 8 at hle
  rw [← hx]
  omega

/-- All blocks of the bitmap together are less than `2 ^ 32` bytes. -/
theorem HeapHeader.length_mul_lt (h : HeapHeader addr memorySize granularity s)
    (hpos : 0 < granularity.toNat) : s.heapBitmap.length * granularity.toNat < 2 ^ 32 :=
  lt_of_le_of_lt ((Nat.le_div_iff_mul_le hpos).mp h.length_le) (UInt32.toNat_lt _)

/-- The blocks of the bitmap start below `2 ^ 32` bytes from the start of the chunk. -/
theorem HeapHeader.mul_lt (h : HeapHeader addr memorySize granularity s) (hpos : 0 < granularity.toNat)
    {i : ℕ} (hi : i < s.heapBitmap.length) : i * granularity.toNat < 2 ^ 32 :=
  lt_of_le_of_lt (Nat.mul_le_mul_right _ (Nat.le_of_lt hi)) (h.length_mul_lt hpos)

/-- Where the block that the search found is in the chunk. -/
theorem HeapHeader.toNat_offset (h : HeapHeader addr memorySize granularity s)
    (hpos : 0 < granularity.toNat) {i : ℕ} (hi : i < s.heapBitmap.length) :
    (s.chunkStart + UInt32.ofNat i * granularity.toUInt32 - s.chunkStart).toNat = i * granularity.toNat := by
  have hlt := h.mul_lt hpos hi
  have hle : i ≤ i * granularity.toNat := Nat.le_mul_of_pos_right i hpos
  rw [UInt32.add_comm, UInt32.add_sub_cancel, UInt32.toNat_mul, UInt32.toNat_ofNat', UInt16.toNat_toUInt32,
    Nat.mod_eq_of_lt (by omega : i < 2 ^ 32), Nat.mod_eq_of_lt hlt]

/-- **At the end of the heap**: `kmalloc` panics, with nothing changed, whenever no run of clear blocks of the
size lies in the bitmap, and else returns a block inside the chunk, exactly when either there is no such run
and the last block is taken, or the lowest such run ends in the chunk. -/
theorem kmalloc_exhaustion_iff (hpos : 0 < granularity.toNat)
    (hcalls : HeapCalls addr memorySize granularity s) {size : UInt32} (hsize : 0 < size.toNat)
    (hwrap : size.toNat + granularity.toNat - 1 < 2 ^ 32) {taken : ℕ → Bool}
    {N n : ℕ} (htaken : taken = s.heapBitmap.bits s.mem) (hN : N = s.heapBitmap.length)
    (hn : n = (size.toNat + granularity.toNat - 1) / granularity.toNat) :
    (((∀ j, ¬ Room taken N n j) → kmalloc size s = .error .panic s) ∧
        ∀ ptr s', kmalloc size s = .ok ptr s' → (ptr - s.chunkStart).toNat + size.toNat ≤ s.chunkSize.toNat) ↔
      ((∀ j, ¬ Room taken N n j) ∧ (N = 0 ∨ taken (N - 1) = true)) ∨
        ∃ i, Room taken N n i ∧ (∀ k < i, ¬ Room taken N n k) ∧
        i * granularity.toNat + size.toNat ≤ memorySize.toNat := by
  have h := HeapHeader.of_calls hcalls
  have hnpos : 0 < n := hn ▸ Nat.div_pos (by omega) hpos
  have hrun := h.kmalloc_eq size
  rw [toNat_kheapBitmapSize hpos hwrap, blockCount, ← htaken, ← hN, ← hn] at hrun
  cases hfind : findRun taken N n 0 with
  | none =>
    rw [hfind] at hrun
    refine iff_of_true ⟨fun _ => hrun, fun ptr s' hcall => ?_⟩ (Or.inl ((findRun_eq_none_iff hnpos).mp hfind))
    rw [hrun] at hcall
    cases hcall
  | some i =>
    rw [hfind] at hrun
    have hoffset := h.toNat_offset hpos (hN ▸ (findRun_eq_some.mp hfind).2.1.1)
    constructor
    · rintro ⟨hpanic, hinside⟩
      have hroom : ∃ j, Room taken N n j := by
        by_contra hnone
        have herror := hpanic (not_exists.mp hnone)
        rw [hrun] at herror
        cases herror
      obtain ⟨hi, hmin⟩ := (findRun_eq_some_iff hnpos hroom).mp hfind
      have hend := hinside _ _ hrun
      rw [hoffset, h.chunkSize] at hend
      exact Or.inr ⟨i, hi, hmin, hend⟩
    · rintro (hfull | ⟨j, hj, hmin, hend⟩)
      · rw [(findRun_eq_none_iff hnpos).mpr hfull] at hfind
        cases hfind
      · rw [(findRun_eq_some_iff hnpos ⟨j, hj⟩).mpr ⟨hj, hmin⟩] at hfind
        cases hfind
        refine ⟨fun hnone => absurd hj (hnone _), fun ptr s' hcall => ?_⟩
        rw [hrun] at hcall
        cases hcall
        rw [hoffset, h.chunkSize]
        exact hend

/-- The new heap of sixteen blocks of four bytes has sixteen clear blocks. -/
theorem smallHeap_clear : ∃ s, s = kheapAdd 0x100000 64 4 Kernel.loaded ∧ s.heapBitmap.length = 16 ∧
    s.chunkSize = 64 ∧
    ∀ f < 16, s.heapBitmap.bits s.mem f = false := by
  obtain ⟨hheader, hbits⟩ := kheapAdd_ok smallHeap Kernel.loaded
  refine ⟨_, rfl, ?_, hheader.chunkSize, ?_⟩
  · exact (congrArg Bitmap.length hheader.bitmap).trans smallHeap.bitmap_length
  · intro f hf
    rw [show (kheapAdd 0x100000 64 4 Kernel.loaded).heapBitmap = smallHeap.bitmap from hheader.bitmap]
    exact hbits f hf

theorem kmalloc_exhaustion_smallHeap : ∃ s, HeapCalls 0x100000 64 4 s ∧
    ∀ ptr s', kmalloc 5 s = .ok ptr s' → (ptr - s.chunkStart).toNat + 5 ≤ 64 := by
  obtain ⟨s, hs, hlength, hsize, hclear⟩ := smallHeap_clear
  have hcalls : HeapCalls 0x100000 64 4 s := hs ▸ .start Kernel.loaded
  have hroom : Room (s.heapBitmap.bits s.mem) s.heapBitmap.length ((5 + 4 - 1) / 4) 0 := by
    rw [hlength]
    exact ⟨by decide, fun k _ hk => hclear k (by omega)⟩
  have hinside :=
    ((kmalloc_exhaustion_iff (by decide) hcalls (by decide : 0 < (5 : UInt32).toNat) (by decide) rfl rfl
    rfl).mpr
    (Or.inr ⟨0, hroom, fun k hk => absurd hk (Nat.not_lt_zero k), by decide⟩)).2
  rw [hsize] at hinside
  exact ⟨s, hcalls, hinside⟩

/-- A request for 100 bytes of an empty heap of 64 returns a block. -/
theorem kmalloc_past_end : ∃ s ptr s', HeapCalls 0x100000 64 4 s ∧
    (∀ j, ¬ Room (s.heapBitmap.bits s.mem) s.heapBitmap.length ((100 + 4 - 1) / 4) j) ∧
    kmalloc 100 s = .ok ptr s' := by
  obtain ⟨s, hs, hlength, -, hclear⟩ := smallHeap_clear
  have hcalls : HeapCalls 0x100000 64 4 s := hs ▸ .start Kernel.loaded
  have hrun := (HeapHeader.of_calls hcalls).kmalloc_eq 100
  have hcount : (kheapBitmapSize 100 4).toNat = 25 := by decide
  have hfind : findRun (s.heapBitmap.bits s.mem) s.heapBitmap.length 25 0 = some 0 := by
    refine findRun_eq_some.mpr ⟨le_rfl, ⟨by omega, fun k _ hk => hclear k (by omega)⟩, fun j _ hj =>
      absurd hj (Nat.not_lt_zero j)⟩
  rw [hcount, hfind] at hrun
  refine ⟨s, _, _, hcalls, fun j hj => ?_, hrun⟩
  have := hj.1
  omega

end HeapHeader

end JurasOS
