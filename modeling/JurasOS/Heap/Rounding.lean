import JurasOS.Heap.Granularity

/-!
# The rounding of a size to blocks

`KHEAP_BITMAP_SIZE` adds the granularity to the size before it divides, in 32
bits. `kmalloc` and `kfree` both count their blocks with it, but what they count is
not always what they mark and clear. Where the sum wraps the count is 0, and
`kmalloc` returns a pointer for which no block is marked. Where no run of clear
blocks is as long as the count, `kmalloc` marks what is left of the bitmap. And
`kfree` subtracts the addresses as signed numbers: for a block far from the start of
the chunk the index is negative, and no block is cleared.
-/

namespace JurasOS

open Machine Alloc

/-- The blocks that are marked in the bitmap of the heap. -/
def Kernel.heapMarked (s : Kernel) : Set ℕ := s.heapBitmap.marked s.mem

section HeapHeader

variable {addr memorySize : UInt32} {granularity : UInt16} {s s' : Kernel} {size ptr : UInt32}

/-- Where the sum wraps, what is left of it is less than the granularity. -/
theorem toNat_kheapBitmapSize_of_wrap (hpos : 1 ≤ granularity.toNat)
    (hwrap : ¬ size.toNat + granularity.toNat - 1 < 2 ^ 32) :
    (kheapBitmapSize size granularity).toNat = 0 := by
  have hg : granularity.toUInt32.toNat = granularity.toNat := UInt16.toNat_toUInt32 _
  have hsize := size.toNat_lt
  have hlt := granularity.toNat_lt
  rw [kheapBitmapSize, UInt32.toNat_div, UInt32.toNat_sub, UInt32.toNat_add, UInt32.toNat_one, hg]
  exact Nat.div_eq_of_lt (by omega)

/-! ### What `kmalloc` marks -/

/-- The bits that a loop writes are different ones. -/
theorem ncard_loopBits (index count : UInt32) : (loopBits index count).ncard = count.toNat := by
  have hcount := count.toNat_lt
  have hinj : Set.InjOn (fun i => (index + UInt32.ofNat i).toNat) (Set.Iio count.toNat) := by
    intro i hi j hj hij
    have hadd := UInt32.add_right_inj index |>.mp (UInt32.toNat_inj.mp hij)
    rw [Set.mem_Iio] at hi hj
    rw [← UInt32.toNat_inj, UInt32.toNat_ofNat', UInt32.toNat_ofNat'] at hadd
    omega
  rw [loopBits, hinj.ncard_image, ← Finset.coe_Iio, Set.ncard_coe_finset, Nat.card_Iio]

/-- Where the sum wraps, no block is marked. -/
theorem HeapHeader.marks_nothing (h : HeapHeader addr memorySize granularity s) (hpos : 1 ≤ granularity.toNat)
    (hwrap : ¬ size.toNat + granularity.toNat - 1 < 2 ^ 32) (hcall : kmalloc size s = .ok ptr s') :
    s'.heapMarked = s.heapMarked := by
  obtain ⟨i, -, -, -, hmarked⟩ := h.kmalloc_marks hcall
  have hnone : Set.Iio (kheapBitmapSize size granularity).toNat = ∅ := by
    rw [toNat_kheapBitmapSize_of_wrap hpos hwrap]
    exact Set.Iio_bot
  rw [loopBits, hnone, Set.image_empty, Set.empty_inter, Set.union_empty] at hmarked
  exact hmarked

/-- Where no run of clear blocks is long enough, the bit after the bitmap is written too, so fewer blocks
are marked than counted. -/
theorem HeapHeader.ncard_marks_lt (h : HeapHeader addr memorySize granularity s)
    (hroom : ∀ j, ¬ Room (s.heapBitmap.bits s.mem) s.heapBitmap.length
      (kheapBitmapSize size granularity).toNat j) (hcall : kmalloc size s = .ok ptr s') :
    (s'.heapMarked \ s.heapMarked).ncard < (kheapBitmapSize size granularity).toNat := by
  obtain ⟨i, hfind, -, -, hmarked⟩ := h.kmalloc_marks hcall
  obtain ⟨-, hfits, -⟩ := findRun_eq_some.mp hfind
  have hi := hfits.1
  have hover : ¬ i + (kheapBitmapSize size granularity).toNat ≤ s.heapBitmap.length :=
    fun hle => hroom i (hfits.room hle)
  have hlength : s.heapBitmap.length < 2 ^ 32 := UInt32.toNat_lt _
  have hindex : (UInt32.ofNat i).toNat = i := by rw [UInt32.toNat_ofNat', Nat.mod_eq_of_lt (by omega)]
  generalize kheapBitmapSize size granularity = count at hmarked hover ⊢
  have hpast : s.heapBitmap.length ∈ loopBits (UInt32.ofNat i) count := by
    refine ⟨s.heapBitmap.length - i, Set.mem_Iio.mpr (by omega), ?_⟩
    show (UInt32.ofNat i + UInt32.ofNat _).toNat = _
    rw [toNat_add_ofNat (by omega), hindex]
    omega
  have hsub : s'.heapMarked \ s.heapMarked ⊆ loopBits (UInt32.ofNat i) count \ {s.heapBitmap.length} := by
    rw [Kernel.heapMarked, Kernel.heapMarked, hmarked, Set.union_sdiff_left]
    rintro f ⟨⟨hf, hlt⟩, -⟩
    exact ⟨hf, Nat.ne_of_lt hlt⟩
  have hfinite : (loopBits (UInt32.ofNat i) count).Finite := (Set.finite_Iio _).image _
  have hle := Set.ncard_le_ncard hsub (hfinite.subset Set.sdiff_subset)
  have hone := Set.ncard_sdiff_singleton_add_one hpast hfinite
  rw [ncard_loopBits] at hone
  omega

/-- With room, the lowest run of clear blocks is marked. -/
theorem HeapHeader.marks_room (h : HeapHeader addr memorySize granularity s)
    (hcount : 0 < (kheapBitmapSize size granularity).toNat)
    (hroom : ∃ j, Room (s.heapBitmap.bits s.mem) s.heapBitmap.length
      (kheapBitmapSize size granularity).toNat j) (hcall : kmalloc size s = .ok ptr s') :
    ∃ i, Room (s.heapBitmap.bits s.mem) s.heapBitmap.length (kheapBitmapSize size granularity).toNat i ∧
      (∀ k < i, ¬ Room (s.heapBitmap.bits s.mem) s.heapBitmap.length
        (kheapBitmapSize size granularity).toNat k) ∧
      ptr = s.chunkStart + UInt32.ofNat i * granularity.toUInt32 ∧
      s'.heapMarked \ s.heapMarked = Set.Ico i (i + (kheapBitmapSize size granularity).toNat) := by
  obtain ⟨i, hfind, hptr, -, hmarked⟩ := h.kmalloc_marks hcall
  obtain ⟨hi, hmin⟩ := (findRun_eq_some_iff hcount hroom).mp hfind
  obtain ⟨hrun, hapart⟩ := marked_run hi
  refine ⟨i, hi, hmin, hptr, ?_⟩
  rw [Kernel.heapMarked, Kernel.heapMarked, hmarked, hrun, Set.union_sdiff_left]
  exact sdiff_eq_left.mpr hapart

/-! ### What `kfree` clears -/

/-- All states of a heap have the bitmap and the chunk in the same place. -/
theorem HeapHeader.same {t : Kernel} (h : HeapHeader addr memorySize granularity s)
    (ht : HeapHeader addr memorySize granularity t) :
    t.heapBitmap.length = s.heapBitmap.length ∧ s.chunkStart = t.chunkStart := by
  rw [ht.bitmap, h.bitmap, ht.start, h.start]
  exact ⟨rfl, rfl⟩

/-- The index of a block `2 ^ 31` bytes or more from the start of the chunk is negative: no bit of the bitmap
is cleared. -/
theorem HeapHeader.kfree_far {t : Kernel} (h : HeapHeader addr memorySize granularity t)
    (hpos : 2 ≤ granularity.toNat) {i : ℕ}
    (hend : i + (kheapBitmapSize size granularity).toNat ≤ t.heapBitmap.length)
    (hfar : 2 ^ 31 ≤ i * granularity.toNat) (hi : i < t.heapBitmap.length) :
    (kfree (t.chunkStart + UInt32.ofNat i * granularity.toUInt32) size t).heapMarked = t.heapMarked := by
  have hg : granularity.toUInt32.toNat = granularity.toNat := UInt16.toNat_toUInt32 _
  have hlt := granularity.toNat_lt
  have hoffset := h.toNat_offset (by omega) hi
  have hall := h.length_mul_lt (by omega)
  have hmarked := h.marked_fill_false (h.kfree_eq (t.chunkStart + UInt32.ofNat i * granularity.toUInt32) size)
  generalize kheapBitmapSize size granularity = count at hend hmarked
  generalize t.chunkStart + UInt32.ofNat i * granularity.toUInt32 = ptr at hoffset hmarked ⊢
  obtain ⟨q, hq⟩ : ∃ q, q = (2 ^ 32 - i * granularity.toNat) / granularity.toNat := ⟨_, rfl⟩
  -- The blocks from `i` to the end of the bitmap are at most `q`, and `q` of them are at most `2 ^ 31` bytes.
  have hblocks : t.heapBitmap.length - i ≤ q := by
    rw [hq, Nat.le_div_iff_mul_le (by omega), Nat.sub_mul]
    omega
  have hbelow : q * granularity.toNat ≤ 2 ^ 31 := by
    have hle := Nat.div_mul_le_self (2 ^ 32 - i * granularity.toNat) granularity.toNat
    rw [← hq] at hle
    omega
  have hhalf : q * 2 ≤ q * granularity.toNat := Nat.mul_le_mul_left q hpos
  have hlong : t.heapBitmap.length * 2 ≤ t.heapBitmap.length * granularity.toNat := Nat.mul_le_mul_left _ hpos
  have hindex : (blockIndex ptr t.chunkStart granularity).toNat = 2 ^ 32 - q := by
    rw [blockIndex]
    show ((ptr - t.chunkStart).toInt32 / granularity.toUInt32.toInt32).toUInt32.toNat = _
    rw [toInt32_div_of_neg (by omega) (by omega), UInt32.toNat_neg, UInt32.toNat_div, UInt32.toNat_neg, hg,
      hoffset]
    show (2 ^ 32 - (2 ^ 32 - i * granularity.toNat) % 2 ^ 32 / granularity.toNat) % 2 ^ 32 = _
    rw [Nat.mod_eq_of_lt (a := 2 ^ 32 - i * granularity.toNat) (by omega), ← hq]
    omega
  rw [loopBits_eq_Ico (by omega), hindex] at hmarked
  refine hmarked.trans (sdiff_eq_left.mpr (Set.disjoint_left.mpr fun f hset hf => ?_))
  have hin := hset.1
  have hout := hf.1
  omega

/-- The index of a nearer block is that of the block: its marked blocks are cleared. -/
theorem HeapHeader.kfree_near {t : Kernel} (h : HeapHeader addr memorySize granularity t)
    (hpos : 1 ≤ granularity.toNat) (hsum : size.toNat + granularity.toNat - 1 < 2 ^ 32) {i : ℕ}
    (hi : i < t.heapBitmap.length) (hback : i * granularity.toNat < 2 ^ 31 ∨ granularity.toNat = 1)
    (hlive : Set.Ico i (i + blockCount granularity size) ⊆ t.heapMarked) :
    t.heapMarked \ (kfree (t.chunkStart + UInt32.ofNat i * granularity.toUInt32) size t).heapMarked =
      Set.Ico i (i + blockCount granularity size) := by
  have hblock := h.blockBits_ptr hpos hi size
  have hleads : PtrLeadsBack granularity t ⟨t.chunkStart + UInt32.ofNat i * granularity.toUInt32, size⟩ := by
    rw [PtrLeadsBack, h.toNat_offset hpos hi]
    exact hback
  have hcleared := h.kfree_clears hpos hsum hleads (hblock ▸ fun f hf => (hlive hf).1)
  rw [hblock] at hcleared
  rw [show (kfree _ size t).heapMarked = _ from hcleared]
  show t.heapMarked \ (t.heapMarked \ Set.Ico i (i + blockCount granularity size)) = _
  rw [sdiff_sdiff_right_self]
  exact inf_eq_right.mpr hlive

/-! ### Where both agree -/

/-- **The rounding of sizes**: `kmalloc` marks blocks for the whole size, and `kfree` clears as many while
they are marked, if and only if the sum of the size and the granularity does not wrap, there is a run of
clear blocks for the size, and the lowest one starts less than `2 ^ 31` bytes after the start of the chunk
(or the granularity is 1, and nothing is divided). -/
theorem kmalloc_rounding_iff (hpos : 1 ≤ granularity.toNat) (hsize : 1 ≤ size.toNat)
    (hcalls : HeapCalls addr memorySize granularity s) (hcall : kmalloc size s = .ok ptr s')
    {taken : ℕ → Bool} {N n : ℕ} (htaken : taken = s.heapBitmap.bits s.mem) (hN : N = s.heapBitmap.length)
    (hn : n = (size.toNat + granularity.toNat - 1) / granularity.toNat) :
    (size.toNat ≤ (s'.heapMarked \ s.heapMarked).ncard * granularity.toNat ∧
      ∀ t, HeapCalls addr memorySize granularity t → s'.heapMarked \ s.heapMarked ⊆ t.heapMarked →
        (t.heapMarked \ (kfree ptr size t).heapMarked).ncard = (s'.heapMarked \ s.heapMarked).ncard) ↔
      size.toNat + granularity.toNat - 1 < 2 ^ 32 ∧ ∃ i, Room taken N n i ∧ (∀ k < i, ¬ Room taken N n k) ∧
        (i * granularity.toNat < 2 ^ 31 ∨ granularity.toNat = 1) := by
  have h := HeapHeader.of_calls hcalls
  have hcalls' := hcalls.kmalloc hcall
  by_cases hwrap : size.toNat + granularity.toNat - 1 < 2 ^ 32
  swap
  · refine iff_of_false (fun ⟨hle, _⟩ => ?_) fun ⟨hsum, _⟩ => hwrap hsum
    rw [h.marks_nothing hpos hwrap hcall, Set.sdiff_self, Set.ncard_empty, Nat.zero_mul] at hle
    omega
  have hcount : (kheapBitmapSize size granularity).toNat = n := (toNat_kheapBitmapSize hpos hwrap).trans hn.symm
  obtain ⟨hle, hlt⟩ := blockCount_spec hpos size
  rw [show blockCount granularity size = n from hn.symm] at hle hlt
  have hnpos : 0 < n := by
    rw [hn]
    exact Nat.div_pos (by omega) hpos
  by_cases hroom : ∃ j, Room taken N n j
  swap
  · refine iff_of_false (fun ⟨hblocks, _⟩ => ?_) fun ⟨_, i, hi, _⟩ => hroom ⟨i, hi⟩
    rw [not_exists, htaken, hN, ← hcount] at hroom
    have hfew := h.ncard_marks_lt hroom hcall
    rw [hcount] at hfew
    have hbytes := Nat.mul_le_mul_right granularity.toNat (Nat.le_sub_one_of_lt hfew)
    rw [Nat.sub_mul] at hbytes
    omega
  rw [htaken, hN, ← hcount] at hroom
  obtain ⟨i, hi, hmin, hptr, hmarks⟩ := h.marks_room (by omega) hroom hcall
  rw [hcount, ← htaken, ← hN] at hi hmin
  rw [hcount] at hmarks
  have hncard : (Set.Ico i (i + n)).ncard = n := by
    rw [← Finset.coe_Ico, Set.ncard_coe_finset, Nat.card_Ico, Nat.add_sub_cancel_left]
  rw [hmarks, hncard]
  have hend := hi.1
  rw [hN] at hend
  constructor
  · rintro ⟨-, hfree⟩
    refine ⟨hwrap, i, hi, hmin, ?_⟩
    by_contra hnot
    rw [not_or, Nat.not_lt] at hnot
    have h' := HeapHeader.of_calls hcalls'
    obtain ⟨hlength, hstart⟩ := h.same h'
    have hcleared := hfree s' hcalls' (hmarks ▸ Set.sdiff_subset)
    rw [hptr, hstart, h'.kfree_far (by omega) (by omega) hnot.1 (by omega), Set.sdiff_self,
      Set.ncard_empty] at hcleared
    omega
  · rintro ⟨-, j, hj, hjmin, hback⟩
    have hij : j = i := by
      have hj' := (findRun_eq_some_iff hnpos ⟨j, hj⟩).mpr ⟨hj, hjmin⟩
      rw [(findRun_eq_some_iff hnpos ⟨j, hj⟩).mpr ⟨hi, hmin⟩] at hj'
      exact (Option.some_inj.mp hj').symm
    rw [hij] at hback
    refine ⟨hle, fun t hcallst hlive => ?_⟩
    have ht := HeapHeader.of_calls hcallst
    obtain ⟨hlength, hstart⟩ := h.same ht
    rw [show n = blockCount granularity size from hn] at hlive hncard ⊢
    rw [hptr, hstart, ht.kfree_near hpos hwrap (by omega) hback hlive, hncard]

/-- A call on the new heap of sixteen blocks of four bytes returns a block. -/
theorem kmalloc_smallHeap_ok (size : UInt32) : ∃ s ptr s', HeapCalls 0x100000 64 4 s ∧
    s.heapBitmap.length = 16 ∧ (∀ f < 16, s.heapBitmap.bits s.mem f = false) ∧ kmalloc size s = .ok ptr s' := by
  obtain ⟨s, hs, hlength, -, hclear⟩ := smallHeap_clear
  have hcalls : HeapCalls 0x100000 64 4 s := hs ▸ .start Kernel.loaded
  have hrun := (HeapHeader.of_calls hcalls).kmalloc_eq size
  have hfind : findRun (s.heapBitmap.bits s.mem) s.heapBitmap.length
      (kheapBitmapSize size 4).toNat 0 = some 0 :=
    findRun_eq_some.mpr ⟨le_rfl, ⟨by omega, fun k _ hk => hclear k (by omega)⟩,
      fun j _ hj => absurd hj (Nat.not_lt_zero j)⟩
  rw [hfind] at hrun
  exact ⟨s, _, _, hcalls, hlength, hclear, hrun⟩

theorem kmalloc_rounding_smallHeap : ∃ s ptr s', HeapCalls 0x100000 64 4 s ∧ kmalloc 5 s = .ok ptr s' ∧
    5 ≤ (s'.heapMarked \ s.heapMarked).ncard * 4 ∧
    (s'.heapMarked \ (kfree ptr 5 s').heapMarked).ncard = (s'.heapMarked \ s.heapMarked).ncard := by
  obtain ⟨s, ptr, s', hcalls, hlength, hclear, hcall⟩ := kmalloc_smallHeap_ok 5
  have hroom : Room (s.heapBitmap.bits s.mem) s.heapBitmap.length ((5 + 4 - 1) / 4) 0 := by
    rw [hlength]
    exact ⟨by decide, fun k _ hk => hclear k (by omega)⟩
  obtain ⟨hle, hfree⟩ := (kmalloc_rounding_iff (by decide) (by decide) hcalls hcall rfl rfl rfl).mpr
    ⟨by decide, 0, hroom, fun k hk => absurd hk (Nat.not_lt_zero k), by decide⟩
  exact ⟨s, ptr, s', hcalls, hcall, hle, hfree s' (hcalls.kmalloc hcall) Set.sdiff_subset⟩

/-- A request for all but one byte of the address space returns a block, and marks none. -/
theorem kmalloc_marks_nothing : ∃ s ptr s', HeapCalls 0x100000 64 4 s ∧ kmalloc 0xFFFFFFFF s = .ok ptr s' ∧
    ¬ (0xFFFFFFFF : UInt32).toNat ≤ (s'.heapMarked \ s.heapMarked).ncard * 4 := by
  obtain ⟨s, ptr, s', hcalls, -, -, hcall⟩ := kmalloc_smallHeap_ok 0xFFFFFFFF
  refine ⟨s, ptr, s', hcalls, hcall, ?_⟩
  rw [(HeapHeader.of_calls hcalls).marks_nothing (by decide) (by decide) hcall, Set.sdiff_self, Set.ncard_empty]
  decide

end HeapHeader

end JurasOS
