import JurasOS.Alloc.Ownership
import JurasOS.Heap.Kheap
import Mathlib.Algebra.BigOperators.Ring.List
import Mathlib.Algebra.Order.BigOperators.Group.List
import Mathlib.Order.Interval.Finset.Nat

/-!
# Runs of the heap

`HeapRun` is a run of `kmalloc` and `kfree` from a heap that `kheap_add` made, with
the blocks that are live; their holders may write to them at any time. The bits of
the bitmap belong to the live blocks, each of them to one, so the blocks are apart
in memory and the use is what they take together.
-/

namespace JurasOS

open Machine Alloc

/-- A block that `kmalloc` returned, with the size that was asked for. -/
structure HeapBlock where
  ptr : UInt32
  size : UInt32
  deriving DecidableEq

/-- The bytes of the block. -/
def HeapBlock.bytes (b : HeapBlock) : Set UInt32 := span b.ptr b.size.toNat

/-- The index of the block at a pointer. -/
def HeapRegion.indexOf (H : HeapRegion) (ptr : UInt32) : ℕ := (ptr.toNat - H.start) / H.granularity.toNat

/-- The bits of a block: as many as its size takes, from its index on. -/
def HeapRegion.bitsOf (H : HeapRegion) (b : HeapBlock) : Set ℕ :=
  Set.Ico (H.indexOf b.ptr) (H.indexOf b.ptr + H.blocksOf b.size.toNat)

theorem HeapRegion.mem_bitsOf {H : HeapRegion} {b : HeapBlock} {f : ℕ} :
    f ∈ H.bitsOf b ↔ H.indexOf b.ptr ≤ f ∧ f < H.indexOf b.ptr + H.blocksOf b.size.toNat := Iff.rfl

/-- Somewhere in the bitmap there are clear blocks for a size. -/
def HasRoom (H : HeapRegion) (s : Kernel) (size : UInt32) : Prop :=
  ∃ j, Room (s.heapBitmap.bits s.mem) s.heapBitmap.length (H.blocksOf size.toNat) j

/-- A run from a new heap on `H`, with the blocks that were allocated and not freed since. -/
inductive HeapRun (H : HeapRegion) : Kernel → List HeapBlock → Prop
  | start (s : Kernel) : HeapRun H (kheapAdd H.addr H.size H.granularity s) []
  | kmalloc {s s' : Kernel} {live : List HeapBlock} {size ptr : UInt32} :
      HeapRun H s live → 0 < size.toNat → HasRoom H s size → kmalloc size s = .ok ptr s' →
        HeapRun H s' (⟨ptr, size⟩ :: live)
  | kfree {s : Kernel} {live : List HeapBlock} (b : HeapBlock) :
      HeapRun H s live → b ∈ live → HeapRun H (kfree b.ptr b.size s) (live.erase b)
  /-- A live block is written to. -/
  | write {s : Kernel} {live : List HeapBlock} (b : HeapBlock) (m : Mem) :
      HeapRun H s live → b ∈ live → Set.EqOn m s.mem b.bytesᶜ → HeapRun H { s with mem := m } live

/-! ### Blocks of a region -/

/-- A block where `kmalloc` puts it: at the start of some block of the chunk, with its end in the chunk. -/
def HeapRegion.Places (H : HeapRegion) (b : HeapBlock) : Prop :=
  0 < b.size.toNat ∧ b.ptr.toNat = H.blockAt (H.indexOf b.ptr) ∧
    H.indexOf b.ptr + H.blocksOf b.size.toNat ≤ H.blocks

section Places

variable {H : HeapRegion} {b c : HeapBlock}

theorem HeapRegion.indexOf_ptr (H : HeapRegion) {i : ℕ} (h : i ≤ H.blocks) :
    H.indexOf (UInt32.ofNat (H.blockAt i)) = i := by
  rw [HeapRegion.indexOf, H.toNat_ptr h, HeapRegion.blockAt, Nat.add_sub_cancel_left,
    Nat.mul_div_cancel _ H.granularity_pos]

theorem HeapRegion.places_ptr (H : HeapRegion) {i : ℕ} {size : UInt32} (hsize : 0 < size.toNat)
    (h : i + H.blocksOf size.toNat ≤ H.blocks) : H.Places ⟨UInt32.ofNat (H.blockAt i), size⟩ := by
  have hindex := H.indexOf_ptr (i := i) (by omega)
  refine ⟨hsize, ?_, ?_⟩
  · rw [hindex, H.toNat_ptr (by omega)]
  · rw [hindex]
    exact h

theorem HeapRegion.Places.ptr_eq (h : H.Places b) : b.ptr = UInt32.ofNat (H.blockAt (H.indexOf b.ptr)) := by
  rw [← h.2.1, UInt32.ofNat_toNat]

theorem HeapRegion.Places.bitsOf_subset (h : H.Places b) : H.bitsOf b ⊆ Set.Iio H.blocks :=
  fun _ hf => lt_of_lt_of_le hf.2 h.2.2

theorem HeapRegion.ncard_bitsOf (H : HeapRegion) (b : HeapBlock) :
    (H.bitsOf b).ncard = H.blocksOf b.size.toNat := by
  rw [HeapRegion.bitsOf, ← Finset.coe_Ico, Set.ncard_coe_finset, Nat.card_Ico, Nat.add_sub_cancel_left]

/-- A block lies in the chunk. -/
theorem HeapRegion.Places.end_le (h : H.Places b) : H.start ≤ b.ptr.toNat ∧
    b.ptr.toNat + b.size.toNat ≤ H.start + H.size.toNat := by
  have hle := H.size_le h.2.2
  have hptr := h.2.1
  rw [HeapRegion.blockAt] at hptr
  omega

/-- A block lies apart from the header and the bitmap. -/
theorem HeapRegion.Places.bytes_apart (h : H.Places b) :
    Disjoint (span H.addr (28 + H.bitmapBytes)) b.bytes := by
  have hend := H.end_le
  obtain ⟨hlo, hhi⟩ := h.end_le
  rw [HeapRegion.start] at hend hlo hhi
  exact disjoint_span (by omega) (by omega) (Or.inl (by omega))

/-- Blocks with other bits have other bytes. -/
theorem HeapRegion.Places.disjoint_bytes (hb : H.Places b) (hc : H.Places c)
    (h : Disjoint (H.bitsOf b) (H.bitsOf c)) :
    Disjoint b.bytes c.bytes := by
  have hend := H.end_le
  have hb' := hb.end_le
  have hc' := hc.end_le
  have hbpos := H.blocksOf_pos hb.1
  have hcpos := H.blocksOf_pos hc.1
  have horder : H.indexOf b.ptr + H.blocksOf b.size.toNat ≤ H.indexOf c.ptr ∨
      H.indexOf c.ptr + H.blocksOf c.size.toNat ≤ H.indexOf b.ptr := by
    by_contra hover
    rw [not_or, not_le, not_le] at hover
    rcases le_total (H.indexOf b.ptr) (H.indexOf c.ptr) with hle | hle
    · exact Set.disjoint_left.mp h ⟨hle, hover.1⟩ ⟨le_rfl, by omega⟩
    · exact Set.disjoint_left.mp h ⟨le_rfl, by omega⟩ ⟨hle, hover.2⟩
  have hafter : ∀ {x y : HeapBlock}, H.Places x → H.Places y →
      H.indexOf x.ptr + H.blocksOf x.size.toNat ≤ H.indexOf y.ptr →
      x.ptr.toNat + x.size.toNat ≤ y.ptr.toNat := by
    intro x y hx hy hxy
    have hx' := hx.2.1
    have hy' := hy.2.1
    have hsize := H.blocksOf_spec x.size.toNat
    have := Nat.mul_le_mul_right H.granularity.toNat hxy
    rw [Nat.add_mul] at this
    rw [HeapRegion.blockAt] at hx' hy'
    omega
  exact disjoint_span (by omega) (by omega) (horder.imp (hafter hb hc) (hafter hc hb))

end Places

/-! ### Ownership -/

/-- The sizes of the live blocks together. -/
def totalSize (live : List HeapBlock) : ℕ := (live.map fun b => b.size.toNat).sum

/-- The invariant of a run: the heap's header counts the live blocks, and its bits are theirs. -/
structure HeapInv (H : HeapRegion) (s : Kernel) (live : List HeapBlock) : Prop where
  header : HeapAt H s (UInt32.ofNat (totalSize live))
  owns : Owns H.bitsOf ∅ (H.bitmap.marked s.mem) live
  places : ∀ b ∈ live, H.Places b

section HeapInv

variable {H : HeapRegion} {s s' : Kernel} {live : List HeapBlock} {b : HeapBlock}

theorem HeapInv.start (H : HeapRegion) (s : Kernel) :
    HeapInv H (kheapAdd H.addr H.size H.granularity s) [] := by
  obtain ⟨hheader, hbits⟩ := kheapAdd_ok H s
  have hnone : H.bitmap.marked (kheapAdd H.addr H.size H.granularity s).mem = ∅ := by
    refine Set.eq_empty_of_forall_notMem fun f hf => ?_
    rw [Bitmap.marked, H.bitmap_length, Set.mem_ofPred_eq] at hf
    rw [hbits f hf.1] at hf
    cases hf.2
  refine ⟨hheader, ?_, fun _ hb => absurd hb List.not_mem_nil⟩
  rw [hnone]
  exact Owns.nil

/-- With room, `kmalloc` returns a pointer, and keeps the invariant. -/
theorem HeapInv.kmalloc (h : HeapInv H s live) {size : UInt32} (hsize : 0 < size.toNat)
    (hroom : HasRoom H s size) :
    ∃ ptr s', kmalloc size s = .ok ptr s' ∧ HeapInv H s' (⟨ptr, size⟩ :: live) := by
  obtain ⟨j, hroom⟩ := hroom
  rw [h.header.bitmap, H.bitmap_length] at hroom
  obtain ⟨i, hrun, hin, hclear⟩ := h.header.kmalloc hsize hroom
  obtain ⟨hheader, hbits, -⟩ := h.header.kmallocMark hin
  have hplaces := H.places_ptr hsize hin
  have hbitsOf : H.bitsOf ⟨UInt32.ofNat (H.blockAt i), size⟩ = Set.Ico i (i + H.blocksOf size.toNat) := by
    rw [HeapRegion.bitsOf, H.indexOf_ptr (by omega)]
  have hunmarked : Disjoint (H.bitsOf ⟨UInt32.ofNat (H.blockAt i), size⟩) (H.bitmap.marked s.mem) := by
    rw [hbitsOf]
    refine Set.disjoint_left.mpr fun f hf hmem => ?_
    have := hclear f hf.1 hf.2
    rw [hmem.2] at this
    cases this
  refine ⟨_, _, hrun, ?_, ?_, fun b hb => ?_⟩
  · rw [totalSize, List.map_cons, List.sum_cons, Nat.add_comm, UInt32.ofNat_add, UInt32.ofNat_toNat]
    exact hheader
  · have hmarked : H.bitmap.marked (JurasOS.kmallocMark size i s).mem = H.bitmap.marked s.mem ∪
        (H.bitsOf ⟨UInt32.ofNat (H.blockAt i), size⟩ ∩ Set.Iio H.bitmap.length) := Bitmap.marked_union
      (fun f hf hlt => by rw [hbits f (by rwa [← H.bitmap_length]), if_pos (by rwa [hbitsOf] at hf)])
      (fun f hf hlt => by rw [hbits f (by rwa [← H.bitmap_length]), if_neg (by rwa [hbitsOf] at hf)])
    rw [H.bitmap_length, Set.inter_eq_left.mpr hplaces.bitsOf_subset] at hmarked
    rw [hmarked]
    exact h.owns.alloc hunmarked
  · rcases List.mem_cons.mp hb with rfl | hb
    · exact hplaces
    · exact h.places b hb

/-- `kfree` of a live block keeps the invariant. -/
theorem HeapInv.kfree (h : HeapInv H s live) (hb : b ∈ live) :
    HeapInv H (kfree b.ptr b.size s) (live.erase b) := by
  have hplaces := h.places b hb
  have hkfree := h.header.kfree hplaces.1 hplaces.2.2
  rw [← hplaces.ptr_eq] at hkfree
  obtain ⟨hheader, hbits⟩ := hkfree
  refine ⟨?_, ?_, fun c hc => h.places c (List.mem_of_mem_erase hc)⟩
  · have htotal : totalSize live = totalSize (live.erase b) + b.size.toNat := by
      rw [totalSize, ← List.sum_map_erase _ hb, Nat.add_comm, totalSize]
    rw [htotal, UInt32.ofNat_add, UInt32.ofNat_toNat, UInt32.add_sub_cancel] at hheader
    exact hheader
  · have hmarked : H.bitmap.marked (JurasOS.kfree b.ptr b.size s).mem = H.bitmap.marked s.mem \ H.bitsOf b :=
      Bitmap.marked_sdiff
      (fun f hf hlt => by rw [hbits f (by rwa [← H.bitmap_length]), if_pos (HeapRegion.mem_bitsOf.mp hf)])
      (fun f hf hlt => by rw [hbits f (by rwa [← H.bitmap_length]), if_neg (mt HeapRegion.mem_bitsOf.mpr hf)])
    rw [hmarked]
    exact h.owns.free hb

/-- A write to a live block keeps the invariant. -/
theorem HeapInv.write (h : HeapInv H s live) (hb : b ∈ live) {m : Mem} (hm : Set.EqOn m s.mem b.bytesᶜ) :
    HeapInv H { s with mem := m } live := by
  have hapart := (h.places b hb).bytes_apart
  have hheader : Set.EqOn m s.mem (span H.addr 28) :=
    hm.mono fun a ha => Set.disjoint_left.mp hapart (span_mono (by omega) ha)
  have hbits : ∀ f < H.blocks, H.bitmap.bits m f = H.bitmap.bits s.mem f := by
    intro f hf
    have hbit : f < H.bitmap.length := by rwa [H.bitmap_length]
    have hmem := Bitmap.byteAddr_mem_span hbit
    have hend := H.end_le
    have hsize := H.toNat_bitmap_size
    have hbuffer := H.toNat_bitmap_buffer
    rw [HeapRegion.start] at hend
    exact Bitmap.bits_congr
      (hm (Set.disjoint_left.mp hapart (span_subset_span (by omega) (by omega) (by omega) hmem)))
  refine ⟨h.header.congr hheader, ?_, h.places⟩
  have hmarked : H.bitmap.marked m = H.bitmap.marked s.mem := by
    ext f
    rw [Bitmap.marked, Bitmap.marked, H.bitmap_length]
    exact and_congr_right fun hf => by rw [hbits f hf]
  show Owns H.bitsOf ∅ (H.bitmap.marked m) live
  rw [hmarked]
  exact h.owns

/-- The invariant holds through a run. -/
theorem HeapInv.of_run (hrun : HeapRun H s live) : HeapInv H s live := by
  induction hrun with
  | start s => exact HeapInv.start H s
  | kmalloc _ hsize hroom hcall ih =>
    obtain ⟨ptr, s', hrun, hinv⟩ := ih.kmalloc hsize hroom
    rw [hcall] at hrun
    cases hrun
    exact hinv
  | kfree b _ hb ih => exact ih.kfree hb
  | write b m _ hb hm ih => exact ih.write hb hm

/-- The live blocks fit in the chunk together. -/
theorem HeapInv.totalSize_le (h : HeapInv H s live) : totalSize live ≤ H.size.toNat := by
  have hblocks := h.owns.sum_ncard_le (Set.finite_Iio H.blocks) fun b hb => (h.places b hb).bitsOf_subset
  have hiio : (Set.Iio H.blocks).ncard = H.blocks := by
    rw [← Finset.coe_Iio, Set.ncard_coe_finset, Nat.card_Iio]
  simp only [H.ncard_bitsOf, hiio] at hblocks
  calc totalSize live ≤ (live.map fun b => H.blocksOf b.size.toNat * H.granularity.toNat).sum :=
        List.sum_le_sum fun b _ => H.blocksOf_spec b.size.toNat
    _ = (live.map fun b => H.blocksOf b.size.toNat).sum * H.granularity.toNat :=
      by rw [List.sum_map_mul_right]
    _ ≤ H.blocks * H.granularity.toNat := Nat.mul_le_mul_right _ hblocks
    _ = H.size.toNat := H.size_eq.symm

/-- **The live blocks own the heap**: they are apart and in the chunk, the marked bits are theirs, and the use
is their size. With room, the next `kmalloc` returns a block. -/
theorem heapRun_owns (H : HeapRegion) {s : Kernel} {live : List HeapBlock} (hrun : HeapRun H s live) :
    live.Pairwise (fun b c => Disjoint b.bytes c.bytes) ∧
      (∀ b ∈ live, s.chunkStart.toNat ≤ b.ptr.toNat ∧
        b.ptr.toNat + b.size.toNat ≤ s.chunkStart.toNat + H.size.toNat) ∧
      (∀ b ∈ live, b.ptr.toNat = s.chunkStart.toNat + H.indexOf b.ptr * H.granularity.toNat) ∧
      s.heapBitmap.marked s.mem = (⋃ b ∈ live, H.bitsOf b) ∧
      live.Pairwise (fun b c => Disjoint (H.bitsOf b) (H.bitsOf c)) ∧
      s.chunkUsed.toNat = totalSize live ∧
      ∀ size : UInt32, 0 < size.toNat → HasRoom H s size → ∃ ptr s', kmalloc size s = .ok ptr s' := by
  have h := HeapInv.of_run hrun
  have hle := h.totalSize_le
  have hend := H.end_le
  rw [h.header.start, h.header.bitmap, h.header.chunkUsed, UInt32.toNat_ofNat', Nat.mod_eq_of_lt (by omega)]
  refine ⟨?_, fun b hb => (h.places b hb).end_le, fun b hb => (h.places b hb).2.1, ?_, h.owns.disjoint, rfl,
    fun size hsize hroom => ?_⟩
  · exact h.owns.disjoint.imp_of_mem fun hb hc hapart => (h.places _ hb).disjoint_bytes (h.places _ hc) hapart
  · rw [h.owns.marked_eq, Set.empty_union]
  · obtain ⟨ptr, s', hcall, -⟩ := h.kmalloc hsize hroom
    exact ⟨ptr, s', hcall⟩

/-- A heap of sixteen blocks of four bytes. -/
def smallHeap : HeapRegion := ⟨0x100000, 64, 4, by decide, by decide, by decide, by decide⟩

theorem heapRun_owns_smallHeap : ∃ s ptr, kmalloc 5 (kheapAdd 0x100000 64 4 Kernel.loaded) = .ok ptr s ∧
    s.chunkUsed.toNat = 5 ∧ s.heapBitmap.marked s.mem = smallHeap.bitsOf ⟨ptr, 5⟩ ∧
    s.chunkStart.toNat ≤ ptr.toNat := by
  have hstart : HeapRun smallHeap _ [] := .start Kernel.loaded
  have hroom : HasRoom smallHeap
    (kheapAdd smallHeap.addr smallHeap.size smallHeap.granularity Kernel.loaded) 5 := by
    obtain ⟨hheader, hbits⟩ := kheapAdd_ok smallHeap Kernel.loaded
    refine ⟨0, ?_⟩
    rw [hheader.bitmap, smallHeap.bitmap_length]
    exact ⟨by decide, fun k _ hk => hbits k (lt_trans hk (by decide))⟩
  obtain ⟨-, -, -, -, -, -, hnext⟩ := heapRun_owns smallHeap hstart
  obtain ⟨ptr, s, hcall⟩ := hnext 5 (by decide) hroom
  obtain ⟨-, hinside, -, hmarked, -, hused, -⟩ :=
    heapRun_owns smallHeap (.kmalloc hstart (by decide) hroom hcall)
  exact ⟨s, ptr, hcall, hused, by simpa using hmarked, (hinside _ List.mem_cons_self).1⟩

end HeapInv

end JurasOS
