import JurasOS.Boot.Coverage

/-!
# The bitmap's own frames

The bitmap lies at the kernel's end, wherever that is in a page, and its pages are
locked by their number, which `NUM_PAGES` takes from its size alone. So the last
frame or two that the bitmap reaches into may be left out; they are locked then only
if reading the map happens to reserve them.
-/

namespace JurasOS

open Machine Alloc

/-- The frames that meet the buffer of the bitmap. -/
def bufferFrames (bitmap : Bitmap) : Set ℕ :=
  {f | ∃ a ∈ span bitmap.buffer bitmap.size.toNat, a.toNat / 4096 = f}

/-- Those of them that `NUM_PAGES` of the size leaves out. -/
def missedFrames (bitmap : Bitmap) : Set ℕ :=
  {f | ∃ i, (numPages bitmap.size).toNat ≤ i ∧
    i * 4096 < bitmap.buffer.toNat % 4096 + bitmap.size.toNat ∧ f = (bitmap.buffer.toNat / 4096 + i) % 2 ^ 20}

section bufferFrames

variable {bitmap : Bitmap} {s s₁ : Kernel}

theorem toNat_numPages (x : UInt32) : (numPages x).toNat = x.toNat / 4098 + 1 := by
  have hlt := x.toNat_lt
  rw [numPages, UInt32.toNat_add, UInt32.toNat_div]
  show (_ / 4098 + 1) % 2 ^ 32 = _
  omega

/-- The frames of the buffer are consecutive, from that of its first byte on. -/
theorem mem_bufferFrames {f : ℕ} : f ∈ bufferFrames bitmap ↔
    ∃ i, i * 4096 < bitmap.buffer.toNat % 4096 + bitmap.size.toNat ∧ 0 < bitmap.size.toNat ∧
      f = (bitmap.buffer.toNat / 4096 + i) % 2 ^ 20 := by
  have hbuffer := bitmap.buffer.toNat_lt
  have hsize := bitmap.size.toNat_lt
  constructor
  · rintro ⟨a, ha, rfl⟩
    rw [mem_span, UInt32.toNat_sub] at ha
    have hlt := a.toNat_lt
    refine ⟨(bitmap.buffer.toNat % 4096 + (2 ^ 32 - bitmap.buffer.toNat + a.toNat) % 2 ^ 32) / 4096,
      ?_, ?_, ?_⟩
    · omega
    · omega
    · omega
  · rintro ⟨i, hi, hpos, rfl⟩
    refine ⟨bitmap.buffer + UInt32.ofNat (i * 4096 - bitmap.buffer.toNat % 4096), ?_, ?_⟩
    · exact add_ofNat_mem_span (by omega) (by omega)
    · rw [UInt32.toNat_add, UInt32.toNat_ofNat']
      omega

/-- The buffer's frames are those that `NUM_PAGES` counts, and those that it leaves out. -/
theorem bufferFrames_subset_iff {bitmap : Bitmap} (hpos : 0 < bitmap.size.toNat)
    (hsmall : bitmap.size.toNat ≤ 2 ^ 17) {M : Set ℕ} :
    bufferFrames bitmap ⊆ frames bitmap.buffer (numPages bitmap.size) ∪ M ↔ missedFrames bitmap ⊆ M := by
  constructor
  · rintro hall f ⟨i, hi, hlt, rfl⟩
    refine (hall (mem_bufferFrames.mpr ⟨i, hlt, hpos, rfl⟩)).resolve_left ?_
    rintro ⟨j, hj, heq⟩
    rw [toNat_numPages] at hi hj
    omega
  · rintro hmissed f hf
    obtain ⟨i, hlt, -, rfl⟩ := mem_bufferFrames.mp hf
    by_cases hi : i < (numPages bitmap.size).toNat
    · exact Or.inl ⟨i, hi, rfl⟩
    · exact Or.inr (hmissed ⟨i, by omega, hlt, rfl⟩)

/-- **After the map was read, the bitmap's own frames stay locked** whenever `NUM_PAGES` leaves none of them
out; and, for a map stored off the bitmap, **exactly when** those that it leaves out are reserved. -/
theorem bufferLocked_iff {fuel : ℕ} (hfirst : s.pfa.initialized = false)
    (hrun : pfaReadMultibootMemoryMap fuel s = .ok ⟨⟩ s₁)
    (hcover : bufferFrames s₁.pfa.pageBitmap ⊆ Set.Iio s₁.pfa.pageBitmap.length) :
    (missedFrames s₁.pfa.pageBitmap = ∅ → StaysLocked (bufferFrames s₁.pfa.pageBitmap) s₁) ∧
      ∀ entrySize entries, MapStored s entrySize entries → entries.length < fuel →
        (StaysLocked (bufferFrames s₁.pfa.pageBitmap) s₁ ↔
          missedFrames ⟨mapBitmapSize entries, s.kernelEnd⟩ ⊆
            reservedFrames s.tags.memoryMap entrySize entries entries.length) := by
  have hlength := (pfaReadMultibootMemoryMap_length hfirst hrun).2
  rw [staysLocked_iff hlength]
  constructor
  · intro hnone
    obtain ⟨memorySize, hbitmap, hlocked⟩ := pfaReadMultibootMemoryMap_made hfirst hrun
    have hsize := toNat_bitmapSize memorySize
    have hlt := memorySize.toNat_lt
    rw [hbitmap] at hnone hcover ⊢
    have hpos : 0 < (memorySize / 4096 / 8 + 1).toNat := by omega
    have hall := (@bufferFrames_subset_iff ⟨memorySize / 4096 / 8 + 1, s.kernelEnd⟩ hpos
      (by show (memorySize / 4096 / 8 + 1).toNat ≤ _; omega) ∅).mpr hnone.subset
    rw [Set.union_empty] at hall
    rw [hbitmap] at hlocked
    exact fun f hf => hlocked ⟨hall hf, hcover hf⟩
  · intro entrySize entries hstored hfuel
    obtain ⟨s₁', hrun', h⟩ := pfaReadMultibootMemoryMap_ok hfirst hstored hfuel
    rw [hrun] at hrun'
    cases hrun'
    have hsize := mapBitmapSize_le entries
    have hpos : 0 < (mapBitmapSize entries).toNat := by
      rw [toNat_mapBitmapSize]
      omega
    rw [h.bitmap] at hcover ⊢
    rw [← @bufferFrames_subset_iff ⟨mapBitmapSize entries, s.kernelEnd⟩ hpos hsize, h.marked,
      h.bitmap, Set.subset_inter_iff, and_iff_left hcover]
    rfl

theorem bufferLocked_mapKernel : ∃ s₁, pfaReadMultibootMemoryMap 3 (mapKernel 0 1) = .ok ⟨⟩ s₁ ∧
    StaysLocked (bufferFrames s₁.pfa.pageBitmap) s₁ := by
  have hstored := mapKernel_stored 0x100000 (by decide) (by decide)
  obtain ⟨s₁, hrun, h⟩ := pfaReadMultibootMemoryMap_ok rfl hstored (by decide : 2 < 3)
  have hsize : mapBitmapSize [⟨0, 0x100000, 1⟩, ⟨0x10000, 0x1000, 2⟩] = 33 := by decide
  have hbitmap : s₁.pfa.pageBitmap = ⟨33, 0x100000⟩ := by rw [h.bitmap, hsize]
  have hcover : bufferFrames s₁.pfa.pageBitmap ⊆ Set.Iio s₁.pfa.pageBitmap.length := by
    rw [hbitmap]
    intro f hf
    obtain ⟨i, hi, -, rfl⟩ := mem_bufferFrames.mp hf
    change i * 4096 < 0 + 33 at hi
    obtain rfl : i = 0 := by omega
    decide
  refine ⟨s₁, hrun, (bufferLocked_iff rfl hrun hcover).1 (Set.eq_empty_of_forall_notMem ?_)⟩
  rw [hbitmap]
  rintro f ⟨i, hi, hlt, rfl⟩
  change 1 ≤ i at hi
  change i * 4096 < 0 + 33 at hlt
  omega

/-- With the kernel's end near the end of a page the bitmap reaches into a second one, which is not locked:
requests for a page return it. -/
theorem bufferLocked_offset : ∃ s₁ s₂ live,
    pfaReadMultibootMemoryMap 3 { mapKernel 0 1 with kernelEnd := 0x100FF0 } = .ok ⟨⟩ s₁ ∧
    bufferFrames s₁.pfa.pageBitmap ⊆ Set.Iio s₁.pfa.pageBitmap.length ∧
    257 ∈ bufferFrames s₁.pfa.pageBitmap ∧ 257 ∉ s₁.marked ∧
    PfaRun FitsOrFull s₁ s₂ live ∧ ∃ b ∈ live, 257 ∈ b.frames := by
  have hstored := mapKernel_stored 0x100FF0 (by decide) (by decide)
  obtain ⟨s₁, hrun, h⟩ := pfaReadMultibootMemoryMap_ok rfl hstored (by decide : 2 < 3)
  have hsize : mapBitmapSize [⟨0, 0x100000, 1⟩, ⟨0x10000, 0x1000, 2⟩] = 33 := by decide
  have hbitmap : s₁.pfa.pageBitmap = ⟨33, 0x100FF0⟩ := by rw [h.bitmap, hsize]
  have hnot : 257 ∉ mapFrames 0x100FF0 0x10000 24 [⟨0, 0x100000, 1⟩, ⟨0x10000, 0x1000, 2⟩] :=
    notMem_mapFrames_pair (by decide) rfl (by decide) (by decide) (by decide)
  obtain ⟨s₂, live, hcalls, b, hb, hfb⟩ := h.returns fitsOrFull_page (by rw [hsize]; decide) hnot
  refine ⟨s₁, s₂, live, hrun, ?_, ?_, ?_, hcalls, b, hb, hfb⟩
  · rw [hbitmap]
    intro f hf
    obtain ⟨i, hi, -, rfl⟩ := mem_bufferFrames.mp hf
    change i * 4096 < 0xFF0 + 33 at hi
    have hone : i < 2 := by omega
    interval_cases i <;> decide
  · rw [hbitmap]
    exact mem_bufferFrames.mpr ⟨1, by decide, by decide, by decide⟩
  · rwa [h.mem_marked (by rw [hsize]; decide)]

end bufferFrames

end JurasOS
