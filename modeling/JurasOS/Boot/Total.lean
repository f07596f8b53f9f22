import JurasOS.Boot.Coverage
import JurasOS.Paging.Calls

/-!
# The total memory

`kernel_main` prints the free, the reserved and the used memory together as the
total memory. Locking and freeing move bytes between two of the counters; only
reading the memory map adds any: the lengths of the available entries, and 4096
bytes for each frame that the other entries newly mark. So the total is that of
the map exactly when the latter are as many bytes as these entries have.
-/

namespace JurasOS

open Machine Alloc Relation

/-- `pfa_free_memory`. -/
def pfaFreeMemory (s : Kernel) : UInt32 := s.pfa.freeMemory

/-- `pfa_reserved_memory`. -/
def pfaReservedMemory (s : Kernel) : UInt32 := s.pfa.reservedMemory

/-- `pfa_used_memory`. -/
def pfaUsedMemory (s : Kernel) : UInt32 := s.pfa.usedMemory

/-- What `kernel_main` prints as the total memory. -/
def totalMemory (s : Kernel) : UInt32 := pfaFreeMemory s + pfaReservedMemory s + pfaUsedMemory s

section totalMemory

variable {s t : Kernel} {op : PageOp} {F : Set ℕ}

theorem totalMemory_of_moved {n : ℕ} (h : t.pfa = op.moved n s.pfa) :
    totalMemory t = totalMemory s + UInt32.ofNat n * op.reservedChange := by
  have hchange : op.freeChange + op.usedChange = 0 := by cases op <;> rfl
  simp only [totalMemory, pfaFreeMemory, pfaReservedMemory, pfaUsedMemory, h, PageOp.moved]
  grind

/-- A call that locks or frees frames of the bitmap. -/
def LockCalled (s t : Kernel) : Prop := ∃ c : PfaCall, c.op.reservedChange = 0 ∧ c.InRange s ∧ t = c.run s

/-- Locking and freeing keep the total. -/
theorem totalMemory_of_lockCalled (hsmall : s.pfa.pageBitmap.length ≤ 2 ^ 20)
    (hcalls : ReflTransGen LockCalled s t) :
    totalMemory t = totalMemory s ∧ t.pfa.pageBitmap = s.pfa.pageBitmap := by
  induction hcalls with
  | refl => exact ⟨rfl, rfl⟩
  | @tail t u _ hstep ih =>
    obtain ⟨htotal, hbitmap⟩ := ih
    obtain ⟨c, hchange, hin, rfl⟩ := hstep
    have happlied := c.run_applied (by rwa [hbitmap]) hin
    refine ⟨?_, happlied.bitmap.trans hbitmap⟩
    rw [totalMemory_of_moved happlied.counters, hchange, UInt32.mul_zero, UInt32.add_zero, htotal]

end totalMemory

/-! ### What reading the map adds -/

/-- The frames that reading the map of `s` newly reserves: those from the addresses of the entries on, but for
the bitmap's own pages; after the end of the bitmap, where the bit is clear in whatever lies there. -/
def newFrames (s : Kernel) (entrySize : UInt32) (entries : List MmapEntry) : Set ℕ :=
  {f ∈ reservedFrames s.tags.memoryMap entrySize entries entries.length |
    f ∉ frames s.kernelEnd (numPages (mapBitmapSize entries)) ∧
      (f < (mapBitmapSize entries).toNat * 8 ∨
        Bitmap.bits ⟨mapBitmapSize entries, s.kernelEnd⟩ s.mem f = false)}

section MakeBitmap

variable {s t : Kernel} {entrySize : UInt32} {entries : List MmapEntry}

/-- The bits after `init_bitmap`: clear in the bitmap, and as they were after its end. -/
theorem initBitmap_taken {bitmapSize bufferAddress : UInt32} (hsize : bitmapSize.toNat * 8 < 2 ^ 32)
    (s : Kernel) {f : ℕ} (hf : f < 2 ^ 32) : (initBitmap bitmapSize bufferAddress s).taken f =
      if f < bitmapSize.toNat * 8 then false else Bitmap.bits ⟨bitmapSize, bufferAddress⟩ s.mem f := by
  have hlength : Bitmap.length ⟨bitmapSize, bufferAddress⟩ = bitmapSize.toNat * 8 := Bitmap.length_eq hsize
  show Bitmap.bits ⟨bitmapSize, bufferAddress⟩ (memset bufferAddress 0 bitmapSize s.mem) f = _
  by_cases hin : f < bitmapSize.toNat * 8
  · rw [if_pos hin]
    exact Bitmap.bits_of_zero (memset_of_mem (Bitmap.byteAddr_mem_span (hlength ▸ hin)) 0 s.mem)
  · rw [if_neg hin]
    refine Bitmap.bits_congr (eqOn_memset bufferAddress 0 bitmapSize s.mem fun hmem => hin ?_)
    rw [Bitmap.byteAddr, mem_span, UInt32.add_comm, UInt32.add_sub_cancel, UInt32.toNat_div,
      UInt32.toNat_ofNat', Nat.mod_eq_of_lt hf] at hmem
    change f / 8 < _ at hmem
    omega

/-- Making the bitmap keeps the total. -/
theorem pfaMakeBitmap_total (memorySize : UInt32) (s : Kernel) :
    totalMemory (pfaMakeBitmap memorySize s) = totalMemory s := by
  have hlock := (PageOp.lock.pages_tallied s.kernelEnd (numPages (memorySize / 4096 / 8 + 1))
    (initBitmap (memorySize / 4096 / 8 + 1) s.kernelEnd s)).tally
  rw [PageOp.moved_iterate] at hlock
  have htotal := totalMemory_of_moved hlock
  rw [show PageOp.lock.reservedChange = 0 from rfl, UInt32.mul_zero, UInt32.add_zero] at htotal
  exact htotal

/-- The bits of the new bitmap. -/
theorem pfaMakeBitmap_taken (memorySize : UInt32) (s : Kernel) {f : ℕ} (hf : f < 2 ^ 20) :
    (pfaMakeBitmap memorySize s).taken f = false ↔
    f ∉ frames s.kernelEnd (numPages (memorySize / 4096 / 8 + 1)) ∧
      (f < (memorySize / 4096 / 8 + 1).toNat * 8 ∨
        Bitmap.bits ⟨memorySize / 4096 / 8 + 1, s.kernelEnd⟩ s.mem f = false) := by
  have hsize := toNat_bitmapSize memorySize
  have hlt := memorySize.toNat_lt
  have hinit : (initBitmap (memorySize / 4096 / 8 + 1) s.kernelEnd s).taken f =
      if f < (memorySize / 4096 / 8 + 1).toNat * 8 then false
      else Bitmap.bits ⟨memorySize / 4096 / 8 + 1, s.kernelEnd⟩ s.mem f :=
        initBitmap_taken (by omega) s (by omega)
  have hmarks := pfaLockPages_marks s.kernelEnd (numPages (memorySize / 4096 / 8 + 1))
    (initBitmap (memorySize / 4096 / 8 + 1) s.kernelEnd s)
  have htaken :
    (pfaMakeBitmap memorySize s).taken f = (pfaLockPages s.kernelEnd (numPages (memorySize / 4096 / 8 + 1))
    (initBitmap (memorySize / 4096 / 8 + 1) s.kernelEnd s)).taken f := rfl
  rw [htaken]
  generalize memorySize / 4096 / 8 + 1 = size at hinit hmarks
  by_cases hF : f ∈ frames s.kernelEnd (numPages size)
  · rw [hmarks.inside f hF (by omega)]
    simp [hF]
  · rw [hmarks.outside f hF (by omega), hinit]
    by_cases hin : f < size.toNat * 8 <;> simp [hF, hin]

end MakeBitmap

/-! ### The lengths of the regions -/

/-- The bytes of all regions. -/
def regionBytes (entries : List MmapEntry) : ℕ := (entries.map fun entry => entry.len.toNat).sum

/-- The bytes of the regions that are not available. -/
def unavailableBytes (entries : List MmapEntry) : ℕ :=
  (entries.map fun entry => if entry.available then 0 else entry.len.toNat).sum

theorem MmapEntry.toNat_lenLow (entry : MmapEntry) : entry.lenLow.toNat = entry.len.toNat % 2 ^ 32 := by
  rw [MmapEntry.lenLow, UInt64.toNat_toUInt32, UInt64.toNat_and]
  show (entry.len.toNat &&& (2 ^ 32 - 1)) % 2 ^ 32 = _
  rw [Nat.and_two_pow_sub_one_eq_mod, Nat.mod_mod]

/-- A region is available or not, and nothing is lost below 4 GiB. -/
theorem freeBytes_add : ∀ entries : List MmapEntry, regionBytes entries < 2 ^ 32 →
    (freeBytes entries).toNat + unavailableBytes entries = regionBytes entries
  | [], _ => rfl
  | entry :: entries, h => by
    rw [regionBytes, List.map_cons, List.sum_cons, ← regionBytes] at h
    have ih := freeBytes_add entries (by omega)
    have hlow := entry.toNat_lenLow
    rw [freeBytes, unavailableBytes, regionBytes, List.map_cons, List.map_cons, List.map_cons,
      List.sum_cons, List.sum_cons, List.sum_cons, ← freeBytes, ← unavailableBytes, ← regionBytes,
      UInt32.toNat_add]
    cases entry.available with
    | true =>
      rw [if_pos rfl, if_pos rfl]
      omega
    | false =>
      rw [if_neg Bool.false_ne_true, if_neg Bool.false_ne_true, UInt32.toNat_zero]
      omega

/-! ### The total of the map -/

section MapTotal

variable {s s₁ : Kernel} {entrySize : UInt32} {entries : List MmapEntry} {fuel : ℕ}

/-- Reading the map adds the available bytes, and the frames newly reserved. -/
theorem pfaReadMultibootMemoryMap_total (hfirst : s.pfa.initialized = false)
    (hstored : MapStored s entrySize entries) (hfuel : entries.length < fuel) :
    ∃ s₁, pfaReadMultibootMemoryMap fuel s = .ok ⟨⟩ s₁ ∧ s₁.pfa.pageBitmap.length ≤ 2 ^ 20 ∧
      totalMemory s₁ =
      totalMemory s + freeBytes entries + UInt32.ofNat (newFrames s entrySize entries).ncard * 4096 := by
  obtain ⟨s₁, hread, hmap⟩ := pfaReadMultibootMemoryMap_ok hfirst hstored hfuel
  obtain ⟨t, v, ht, hfree, ⟨u, hvu, hu⟩, hrun⟩ := pfaReadMultibootMemoryMap_steps hfirst hstored hfuel
  rw [hread] at hrun
  cases hrun
  refine ⟨_, hread, hmap.length_le, ?_⟩
  have hnew : {f ∈ reservedFrames s.tags.memoryMap entrySize entries entries.length |
      (pfaMakeBitmap (mapBytes entries) t).taken f ≠ true} = newFrames s entrySize entries := by
    have hmem : t.mem = s.mem := by rw [ht]
    have hend : t.kernelEnd = s.kernelEnd := by rw [ht]
    ext f
    refine and_congr_right fun hf => ?_
    rw [ne_eq, Bool.not_eq_true, pfaMakeBitmap_taken _ _ (hu.below f hf), hmem, hend]
    rfl
  have htally := hu.tally
  rw [hnew, PageOp.moved_iterate] at htally
  have hreserve := totalMemory_of_moved htally
  have hcount : totalMemory t = totalMemory s + freeBytes entries := by
    rw [ht, totalMemory, totalMemory, pfaFreeMemory, pfaFreeMemory, hfree]
    show s.pfa.freeMemory + freeBytes entries + s.pfa.reservedMemory + s.pfa.usedMemory = _
    rw [pfaReservedMemory, pfaUsedMemory]
    grind
  rw [pfaMakeBitmap_total, hcount] at hreserve
  rw [← show PageOp.reserve.reservedChange = 4096 from rfl, ← hreserve, hvu]
  rfl

theorem newFrames_ncard_lt (s : Kernel) (entrySize : UInt32) (entries : List MmapEntry) :
    (newFrames s entrySize entries).ncard < 2 ^ 20 := by
  have hsub : newFrames s entrySize entries ⊆ Set.Iio (2 ^ 20) \ {s.kernelEnd.toNat / 4096} := by
    rintro f ⟨⟨i, hi, -, -, hf⟩, hnot, -⟩
    refine ⟨frames_lt hf, ?_⟩
    rintro rfl
    have hcount : 0 < (numPages (mapBitmapSize entries)).toNat := by
      have hlt := (mapBitmapSize entries).toNat_lt
      rw [numPages, UInt32.toNat_add, UInt32.toNat_div]
      show 0 < (_ / 4098 + 1) % 2 ^ 32
      omega
    have := s.kernelEnd.toNat_lt
    exact hnot ⟨0, hcount, by omega⟩
  have hone : (Set.Iio (2 ^ 20) : Set ℕ).ncard = 2 ^ 20 := by
    rw [← Finset.coe_Iio, Set.ncard_coe_finset, Nat.card_Iio]
  have hmem : s.kernelEnd.toNat / 4096 ∈ (Set.Iio (2 ^ 20) : Set ℕ) := page_lt s.kernelEnd
  have hle := Set.ncard_le_ncard hsub ((Set.finite_Iio _).subset Set.sdiff_subset)
  have := Set.ncard_sdiff_singleton_add_one hmem (Set.finite_Iio _)
  omega

/-- **The total memory is that of the map**, through any locking and freeing after it was read,
**exactly when** the frames that its entries newly reserve are as many bytes as the regions that are
not available. -/
theorem totalMemory_iff (hfirst : s.pfa.initialized = false) (hzero : totalMemory s = 0)
    (hstored : MapStored s entrySize entries) (hfuel : entries.length < fuel)
    (hsum : regionBytes entries < 2 ^ 32) :
    ∃ s₁, pfaReadMultibootMemoryMap fuel s = .ok ⟨⟩ s₁ ∧
      ((∀ s₂, ReflTransGen LockCalled s₁ s₂ → (totalMemory s₂).toNat = regionBytes entries) ↔
        4096 * (newFrames s entrySize entries).ncard = unavailableBytes entries) := by
  obtain ⟨s₁, hrun, hsmall, htotal⟩ := pfaReadMultibootMemoryMap_total hfirst hstored hfuel
  have hparts := freeBytes_add _ hsum
  have hnew := newFrames_ncard_lt s entrySize entries
  have hnat : (totalMemory s₁).toNat =
      ((freeBytes entries).toNat + 4096 * (newFrames s entrySize entries).ncard) % 2 ^ 32 := by
    rw [htotal, hzero, UInt32.zero_add, UInt32.toNat_add, UInt32.toNat_mul, UInt32.toNat_ofNat']
    show (_ + _ % 2 ^ 32 * 4096 % 2 ^ 32) % 2 ^ 32 = _
    omega
  refine ⟨s₁, hrun, fun hall => ?_, fun heq s₂ hcalls => ?_⟩
  · have := hall s₁ .refl
    omega
  · rw [(totalMemory_of_lockCalled hsmall hcalls).1]
    omega

/-- The reserved page after a mebibyte is counted: the page of its entry is reserved for it. -/
theorem totalMemory_mapKernel : ∃ s₁, pfaReadMultibootMemoryMap 3 (mapKernel 0 0x10) = .ok ⟨⟩ s₁ ∧
    ∀ s₂, ReflTransGen LockCalled s₁ s₂ → (totalMemory s₂).toNat = 0x101000 := by
  have htag : MmapTag (mapKernel 0 0x10).mem 0x10000 24 [⟨0, 0x100000, 1⟩, ⟨0x100000, 0x1000, 2⟩] :=
    ⟨by decide, by decide, by decide, by decide, by decide, by decide⟩
  obtain ⟨s₁, hrun, hiff⟩ := totalMemory_iff rfl rfl (mapStored_of_below htag (by decide) (by decide))
    (by decide : 2 < 3) (by decide)
  have hnew : newFrames (mapKernel 0 0x10) 24 [⟨0, 0x100000, 1⟩, ⟨0x100000, 0x1000, 2⟩] = {16} := by
    have hone : (numPages (mapBitmapSize [⟨0, 0x100000, 1⟩, ⟨0x100000, 0x1000, 2⟩])).toNat = 1 := by decide
    ext f
    constructor
    · rintro ⟨hf, hnot, -⟩
      have hmark : f ∈ mapFrames 0x100000 0x10000 24 [⟨0, 0x100000, 1⟩, ⟨0x100000, 0x1000, 2⟩] := Or.inr hf
      rcases mem_mapFrames_pair hone rfl (by decide) hmark with rfl | rfl
      · exact absurd ⟨0, by decide, by decide⟩ hnot
      · rfl
    · rintro rfl
      refine ⟨⟨1, by decide, by decide, rfl, 0, by decide, by decide⟩, ?_, Or.inl (by decide)⟩
      rintro ⟨i, hi, heq⟩
      obtain rfl : i = 0 := by omega
      exact absurd heq (by decide)
  exact ⟨s₁, hrun, hiff.mpr (by rw [hnew, Set.ncard_singleton]; rfl)⟩

/-- The two reserved pages are counted as one: both are taken for the page of their entries. -/
theorem totalMemory_misses_page : ∃ s₁, pfaReadMultibootMemoryMap 4 splitKernel = .ok ⟨⟩ s₁ ∧
    (totalMemory s₁).toNat ≠ regionBytes [⟨0, 0x100000, 1⟩, ⟨0x100000, 0x1000, 2⟩,
      ⟨0x101000, 0x1000, 2⟩] := by
  have htag : MmapTag splitKernel.mem 0x10000 24 [⟨0, 0x100000, 1⟩, ⟨0x100000, 0x1000, 2⟩,
    ⟨0x101000, 0x1000, 2⟩] :=
    ⟨by decide, by decide, by decide, by decide, by decide, by decide⟩
  obtain ⟨s₁, hrun, -, htotal⟩ :=
    pfaReadMultibootMemoryMap_total rfl (mapStored_of_below htag (by decide) (by decide))
    (by decide : 3 < 4)
  have hsub : newFrames splitKernel 24 [⟨0, 0x100000, 1⟩, ⟨0x100000, 0x1000, 2⟩,
    ⟨0x101000, 0x1000, 2⟩] ⊆ {16} := by
    rintro f ⟨⟨i, hi, -, havail, j, hj, rfl⟩, -⟩
    have hcount : (numPages (MmapEntry.lenLow ⟨0x100000, 0x1000, 2⟩)).toNat = 1 := by decide
    have hcount' : (numPages (MmapEntry.lenLow ⟨0x101000, 0x1000, 2⟩)).toNat = 1 := by decide
    have hlen : i < 3 := hi
    obtain rfl | rfl | rfl : i = 0 ∨ i = 1 ∨ i = 2 := by omega
    · cases havail
    · obtain rfl : j = 0 := by
        change j < (numPages (MmapEntry.lenLow ⟨0x100000, 0x1000, 2⟩)).toNat at hj
        omega
      rfl
    · obtain rfl : j = 0 := by
        change j < (numPages (MmapEntry.lenLow ⟨0x101000, 0x1000, 2⟩)).toNat at hj
        omega
      rfl
  have hone := Set.ncard_le_ncard hsub (Set.finite_singleton 16)
  rw [Set.ncard_singleton] at hone
  refine ⟨s₁, hrun, fun heq => ?_⟩
  have hfree : freeBytes [⟨0, 0x100000, 1⟩, ⟨0x100000, 0x1000, 2⟩, ⟨0x101000, 0x1000, 2⟩] =
    0x100000 := by decide
  have hbytes : regionBytes [⟨0, 0x100000, 1⟩, ⟨0x100000, 0x1000, 2⟩, ⟨0x101000, 0x1000, 2⟩] =
    0x102000 := by decide
  rw [htotal, hfree, hbytes] at heq
  generalize (newFrames splitKernel 24 [⟨0, 0x100000, 1⟩, ⟨0x100000, 0x1000, 2⟩,
    ⟨0x101000, 0x1000, 2⟩]).ncard = n at *
  obtain rfl | rfl : n = 0 ∨ n = 1 := by omega
  · exact absurd heq (by decide)
  · exact absurd heq (by decide)

end MapTotal

end JurasOS
