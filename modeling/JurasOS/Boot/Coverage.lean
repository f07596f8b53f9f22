import JurasOS.Boot.Reserve

/-!
# What the bitmap covers

The bitmap is sized from the sum of the lengths of the regions, in 32 bits, and is
indexed by frame. So it may end before an available region does, when the map has
holes or the sum wraps; and it may have bits for frames that no entry describes,
which are clear unless reading the map has marked them. It never has more bits than
there are frames.
-/

namespace JurasOS

open Machine Alloc

/-! ### The bitmap that is built -/

/-- The bitmap stayed where it is. -/
def SameBitmap (s t : Kernel) : Prop := t.pfa.pageBitmap = s.pfa.pageBitmap

instance : Std.Refl SameBitmap := ⟨fun _ => rfl⟩

instance : IsTrans Kernel SameBitmap := ⟨fun _ _ _ h h' => h'.trans h⟩

/-- A reservation only sets bits. -/
theorem reserveEntry_grew (mmap : UInt32) (a : PUnit) : Along Grew (reserveEntry mmap a) := by
  intro s
  have hreserve : ∀ pageCount, Grew (s.emit (.mmapEntry mmap))
      (pfaReservePages mmap pageCount (s.emit (.mmapEntry mmap))) := fun pageCount =>
    ⟨pfaReservePages_grows _ _ _, (pfaReservePages_marks _ _ _).bitmap⟩
  simp only [reserveEntry, stop]
  split
  · exact ⟨Mem.Grows.refl s.mem, rfl⟩
  · exact ⟨(hreserve _).mem, (hreserve _).bitmap⟩

theorem reserveEntry_sameBitmap (mmap : UInt32) (a : PUnit) : Along SameBitmap (reserveEntry mmap a) :=
  fun s => (reserveEntry_grew mmap a s).bitmap

section Coverage

variable {s s₁ : Kernel} {entrySize : UInt32} {entries : List MmapEntry} {fuel : ℕ}

/-- Reading a map makes the bitmap at the kernel's end, of the size for the bytes counted, even if it
overwrites the map. -/
theorem pfaReadMultibootMemoryMap_bitmap (hfirst : s.pfa.initialized = false)
    (h : MmapTag s.mem s.tags.memoryMap entrySize entries) (hfuel : entries.length < fuel) :
    (stop (pfaReadMultibootMemoryMap fuel s)).pfa.pageBitmap = ⟨mapBitmapSize entries, s.kernelEnd⟩ := by
  obtain ⟨t, hcount, ht, -⟩ := mmapLoop_count (s := s.emit (.mmapTag s.tags.memoryMap)) h hfuel
  have hmem : t.mem = s.mem := by rw [ht]; rfl
  have hend : t.kernelEnd = s.kernelEnd := by rw [ht]; rfl
  have hmade := (pfaMakeBitmap_made (mapBytes entries) t).bitmap
  rw [hend, ← mapBitmapSize] at hmade
  have hrest : Along SameBitmap (mmapLoop s.tags.memoryMap reserveEntry fuel ⟨⟩ >>= fun _ =>
      modify fun s => { s with pfa := { s.pfa with initialized := true } } : KernelM PUnit) :=
    (mmapLoop_along reserveEntry_sameBitmap _ fuel _).bind fun _ => Along.modify fun _ => rfl
  rw [pfaReadMultibootMemoryMap, bind_of_ok (get_apply s), hfirst, if_neg Bool.false_ne_true,
    bind_of_ok (get_apply s), bind_of_ok (modify_apply ..), bind_of_ok hcount, bind_of_ok (get_apply t),
    if_neg (by rw [hmem, h.load_type]; decide), bind_of_ok (modify_apply ..)]
  exact (hrest _).trans hmade

/-- Whatever the memory holds, reading a map makes a bitmap at the kernel's end, and locks the first of the
bitmap's pages. -/
theorem pfaReadMultibootMemoryMap_made (hfirst : s.pfa.initialized = false)
    (hrun : pfaReadMultibootMemoryMap fuel s = .ok ⟨⟩ s₁) :
    ∃ memorySize : UInt32, s₁.pfa.pageBitmap = ⟨memorySize / 4096 / 8 + 1, s.kernelEnd⟩ ∧
      frames s.kernelEnd (numPages (memorySize / 4096 / 8 + 1)) ∩ Set.Iio s₁.pfa.pageBitmap.length ⊆
        s₁.marked := by
  obtain ⟨memorySize, t, v, hcount, -, hreserve, rfl⟩ := (pfaReadMultibootMemoryMap_eq_ok hfirst).mp hrun
  have hcounted : Counted (s.emit (.mmapTag s.tags.memoryMap)) t :=
    (mmapLoop_along countEntry_counted _ fuel 0).of_ok hcount
  have hend : t.kernelEnd = s.kernelEnd := by rw [hcounted, Kernel.emit_kernelEnd]
  have hmade := pfaMakeBitmap_made memorySize t
  have hgrew := (mmapLoop_along reserveEntry_grew _ fuel _).of_ok hreserve
  refine ⟨memorySize, hend ▸ hgrew.bitmap.trans hmade.bitmap, ?_⟩
  show _ ∩ Set.Iio v.pfa.pageBitmap.length ⊆ v.marked
  rw [hgrew.bitmap, ← hend, ← hmade.marked]
  exact hgrew.marked_subset

/-- The bitmap that is made has at least a byte, and bits for no more frames than there are. -/
theorem pfaReadMultibootMemoryMap_length (hfirst : s.pfa.initialized = false)
    (hrun : pfaReadMultibootMemoryMap fuel s = .ok ⟨⟩ s₁) :
    0 < s₁.pfa.pageBitmap.length ∧ s₁.pfa.pageBitmap.length ≤ 2 ^ 20 := by
  obtain ⟨memorySize, hbitmap, -⟩ := pfaReadMultibootMemoryMap_made hfirst hrun
  have hlt := memorySize.toNat_lt
  have hsize := toNat_bitmapSize memorySize
  rw [hbitmap, Bitmap.length_eq (by show (memorySize / 4096 / 8 + 1).toNat * 8 < _; omega)]
  show 0 < (memorySize / 4096 / 8 + 1).toNat * 8 ∧ (memorySize / 4096 / 8 + 1).toNat * 8 ≤ _
  omega

theorem toNat_mapBitmapSize (entries : List MmapEntry) :
    (mapBitmapSize entries).toNat = (mapBytes entries).toNat / 32768 + 1 := toNat_bitmapSize _

/-- **The bitmap covers the available regions below 4 GiB exactly when** each of them ends at or before the
last frame that the sum of the lengths makes room for. -/
theorem memoryMap_covered_iff (hfirst : s.pfa.initialized = false)
    (h : MmapTag s.mem s.tags.memoryMap entrySize entries) (hfuel : entries.length < fuel) :
    (∀ entry ∈ entries, entry.available = true → ∀ a < 2 ^ 32, entry.addr.toNat ≤ a →
        a < entry.addr.toNat + entry.len.toNat →
          a / 4096 < (stop (pfaReadMultibootMemoryMap fuel s)).pfa.pageBitmap.size.toNat * 8) ↔
      ∀ entry ∈ entries, entry.available = true → 0 < entry.len.toNat → entry.addr.toNat < 2 ^ 32 →
        min (entry.addr.toNat + entry.len.toNat) (2 ^ 32) ≤
          32768 * ((mapBytes entries).toNat / 32768 + 1) := by
  rw [pfaReadMultibootMemoryMap_bitmap hfirst h hfuel, toNat_mapBitmapSize]
  constructor
  · intro hcover entry hentry havailable hlen haddr
    -- the last address of the region, cut at 4 GiB
    have hlast :=
      hcover entry hentry havailable (min (entry.addr.toNat + entry.len.toNat) (2 ^ 32) - 1)
        (by omega) (by omega) (by omega)
    omega
  · intro hend entry hentry havailable a ha hlo hhi
    have := hend entry hentry havailable (by omega) (by omega)
    omega

theorem memoryMap_covered_mapKernel :
    MmapTag (mapKernel 0 1).mem 0x10000 24 [⟨0, 0x100000, 1⟩, ⟨0x10000, 0x1000, 2⟩] ∧
    ∀ a < 0x100000,
    a / 4096 < (stop (pfaReadMultibootMemoryMap 3 (mapKernel 0 1))).pfa.pageBitmap.size.toNat * 8 := by
  have htag : MmapTag (mapKernel 0 1).mem 0x10000 24 [⟨0, 0x100000, 1⟩, ⟨0x10000, 0x1000, 2⟩] :=
    ⟨by decide, by decide, by decide, by decide, by decide, by decide⟩
  have hcover := (memoryMap_covered_iff rfl htag (by decide : 2 < 3)).mpr (by decide)
  refine ⟨htag, fun a ha => ?_⟩
  exact hcover ⟨0, 0x100000, 1⟩ List.mem_cons_self rfl a (by omega) (Nat.zero_le a)
    (by show a < 0 + 0x100000; omega)

/-- A kernel of a mebibyte whose memory is a mebibyte at 16 MiB. -/
def holeKernel : Kernel :=
  { Kernel.loaded with
    mem := fun a => ([6, 0, 0, 0, 40, 0, 0, 0, 24, 0, 0, 0, 0, 0, 0, 0,
      0, 0, 0, 1, 0, 0, 0, 0, 0, 0, 0x10, 0, 0, 0, 0, 0, 1, 0, 0, 0, 0, 0, 0, 0] :
      List UInt8).getD (a - 0x10000).toNat 0
    kernelEnd := 0x100000
    tags := { Kernel.loaded.tags with memoryMap := 0x10000 } }

/-- With a hole below it, the first frame of the only available region is not in the bitmap. -/
theorem memoryMap_uncovered : MmapTag holeKernel.mem 0x10000 24 [⟨0x1000000, 0x100000, 1⟩] ∧
    ¬ 0x1000000 / 4096 < (stop (pfaReadMultibootMemoryMap 2 holeKernel)).pfa.pageBitmap.size.toNat * 8 := by
  have htag : MmapTag holeKernel.mem 0x10000 24 [⟨0x1000000, 0x100000, 1⟩] :=
    ⟨by decide, by decide, by decide, by decide, by decide, by decide⟩
  refine ⟨htag, ?_⟩
  rw [pfaReadMultibootMemoryMap_bitmap rfl htag (by decide : 1 < 2), toNat_mapBitmapSize]
  decide

end Coverage

/-! ### Frames that no entry describes -/

/-- The frames with an address that no entry describes. -/
def undescribedFrames (entries : List MmapEntry) : Set ℕ :=
  {f | f < 2 ^ 20 ∧ ∃ a, a / 4096 = f ∧ ∀ entry ∈ entries,
    ¬ (entry.addr.toNat ≤ a ∧ a < entry.addr.toNat + entry.len.toNat)}

/-- Any request, and any block that it returns. -/
def AnyRequest (_ : Kernel) (_ : PfaRequest) (_ : UInt32) : Prop := True

theorem anyRequest_page (s : Kernel) (page : UInt32) : AnyRequest s .page page := trivial

section PfaRun

variable {s₀ s : Kernel} {live : List PageBlock}

/-- While the last frame is taken, any request is one that fits or finds the last frame taken. -/
theorem PfaRun.fitsOrFull {Guard : Kernel → PfaRequest → UInt32 → Prop}
    (hsmall : s₀.pfa.pageBitmap.length ≤ 2 ^ 20) (hlast : s₀.pfa.pageBitmap.length - 1 ∈ s₀.marked)
    (hrun : PfaRun Guard s₀ s live) : PfaRun FitsOrFull s₀ s live := by
  induction hrun with
  | start => exact .start
  | request q _ hcount hcall _ ih =>
    obtain ⟨hbitmap, hmarked, -⟩ := ih.avoids hsmall (Set.singleton_subset_iff.mpr hlast)
    refine .request q ih hcount hcall fun _ => Or.inr ?_
    rw [hbitmap]
    exact (Set.singleton_subset_iff.mp hmarked).2
  | null q _ hcount hcall ih => exact .null q ih hcount hcall
  | freePage b _ hb hone ih => exact .freePage b ih hb hone
  | freePages b _ hb ih => exact .freePages b ih hb

/-- When no window of `n` slots fits, and the last slot is clear, the search finds the clear tail. -/
theorem findRun_of_last_clear {taken : ℕ → Bool} {N n : ℕ} (hpos : 0 < N) (hlast : taken (N - 1) = false) :
    ∃ i, findRun taken N n 0 = some i := by
  cases h : findRun taken N n 0 with
  | some i => exact ⟨i, rfl⟩
  | none =>
    refine absurd ⟨by omega, fun k hk hk' => ?_⟩ (findRun_eq_none.mp h (N - 1) (Nat.zero_le _))
    rwa [show k = N - 1 by omega]

/-- A request for all the frames there are, while the last one is clear, returns a block that goes on to the
last frame there is; and freeing it clears every frame. -/
theorem pfaRequestPages_all (hsmall : s₀.pfa.pageBitmap.length ≤ 2 ^ 20) (hpos : 0 < s₀.pfa.pageBitmap.length)
    (hlast : s₀.taken (s₀.pfa.pageBitmap.length - 1) = false) :
    ∃ i s, i < s₀.pfa.pageBitmap.length ∧ PfaRun AnyRequest s₀ s [⟨UInt32.ofNat i * 4096, 2 ^ 20⟩] ∧
      ∃ t, PfaRun AnyRequest s₀ t [] ∧ t.pfa.pageBitmap = s₀.pfa.pageBitmap ∧ ∀ f < 2 ^ 20,
      t.taken f = false := by
  obtain ⟨i, hfind⟩ : ∃ i, clearPages (PfaRequest.pages (2 ^ 20)).count s₀ = some i :=
    findRun_of_last_clear hpos hlast
  have hi := (findRun_eq_some.mp hfind).2.1.1
  have hcall : (PfaRequest.pages (2 ^ 20)).run s₀ =
      .ok (some (UInt32.ofNat i * 4096)) (pfaLockPages (UInt32.ofNat i * 4096) (2 ^ 20) s₀) := by
    rw [PfaRequest.run_of_some hfind]
    rfl
  have hstart : PfaRun AnyRequest s₀ s₀ [] := .start
  have hrun := hstart.request (.pages (2 ^ 20)) (by decide) hcall trivial
  have hfree := hrun.freePages _ List.mem_cons_self
  rw [List.erase_cons_head] at hfree
  have hlock := pfaLockPages_marks (UInt32.ofNat i * 4096) (2 ^ 20) s₀
  have hclear :=
    pfaFreePages_marks (UInt32.ofNat i * 4096) (2 ^ 20) (pfaLockPages (UInt32.ofNat i * 4096) (2 ^ 20) s₀)
  refine ⟨i, _, hi, hrun, _, hfree, hclear.bitmap.trans hlock.bitmap, fun f hf =>
    hclear.inside f ?_ (by omega)⟩
  have hframe : (UInt32.ofNat i * 4096).toNat / 4096 = i := toNat_frame (by omega)
  rw [frames, Set.mem_ofPred_eq, hframe]
  by_cases hif : i ≤ f
  · exact ⟨f - i, by show _ < 2 ^ 20; omega, by omega⟩
  · exact ⟨f + 2 ^ 20 - i, by show _ < 2 ^ 20; omega, by omega⟩

/-- Runs stay out of `R` exactly when there is nothing in it, or else the last frame of the bitmap is
marked, and so are those of `R` in the bitmap. -/
theorem PfaRun.disjoint_iff (hsmall : s₀.pfa.pageBitmap.length ≤ 2 ^ 20)
    (hpos : 0 < s₀.pfa.pageBitmap.length) {R : Set ℕ} (hR : ∀ f ∈ R, f < 2 ^ 20) :
    (∀ s live, PfaRun AnyRequest s₀ s live → ∀ b ∈ live, Disjoint b.frames R) ↔
      R = ∅ ∨ (s₀.pfa.pageBitmap.length - 1 ∈ s₀.marked ∧ ∀ f ∈ R, f < s₀.pfa.pageBitmap.length →
        f ∈ s₀.marked) := by
  constructor
  · intro hsafe
    -- a clear frame of `R` in the bitmap is returned by some run
    have hreturn : ∀ {s live}, PfaRun AnyRequest s₀ s live → s.pfa.pageBitmap = s₀.pfa.pageBitmap → ∀ f ∈ R,
        f < s₀.pfa.pageBitmap.length → s.taken f ≠ false := by
      intro s live hrun hbitmap f hf hlt hclear
      obtain ⟨t, live', hrun', b, hb, hfb⟩ :=
        hrun.returns anyRequest_page (by rwa [hbitmap]) (by rwa [hbitmap]) hclear
      exact Set.disjoint_left.mp (hsafe t live' hrun' b hb) hfb hf
    by_cases hlast : s₀.taken (s₀.pfa.pageBitmap.length - 1) = true
    · refine Or.inr ⟨⟨by omega, hlast⟩, fun f hf hlt => ⟨hlt, ?_⟩⟩
      exact Bool.not_eq_false _ ▸ hreturn .start rfl f hf hlt
    · left
      rw [Bool.not_eq_true] at hlast
      obtain ⟨i, s, hi, hrun, t, hrun', hbitmap, hclear⟩ := pfaRequestPages_all hsmall hpos hlast
      refine Set.eq_empty_of_forall_notMem fun f hf => ?_
      have hlt := hR f hf
      by_cases hfN : f < s₀.pfa.pageBitmap.length
      · exact hreturn hrun' hbitmap f hf hfN (hclear f hlt)
      · have hframe : (UInt32.ofNat i * 4096).toNat / 4096 = i := toNat_frame (by omega)
        have hmem : f ∈ blockFrames (UInt32.ofNat i * 4096) (2 ^ 20) := by
          refine ⟨by omega, ?_⟩
          show f < (UInt32.ofNat i * 4096).toNat / 4096 + 2 ^ 20
          omega
        exact Set.disjoint_left.mp (hsafe s _ hrun _ List.mem_cons_self) hmem hf
  · rintro (rfl | ⟨hlast, hmarked⟩) s live hrun b hb
    · exact Set.disjoint_empty _
    · have hsub : R ∩ Set.Iio s₀.pfa.pageBitmap.length ⊆ s₀.marked := fun f hf => hmarked f hf.1 hf.2
      obtain ⟨hbitmap, -, hlive⟩ := (hrun.fitsOrFull hsmall hlast).avoids hsmall hsub
      obtain ⟨hdisj, hinside⟩ := hlive b hb
      rw [hbitmap] at hinside
      exact Set.disjoint_left.mpr fun f hf hfR =>
        Set.disjoint_left.mp hdisj hf ⟨hfR, lt_of_lt_of_le hf.2 hinside⟩

end PfaRun

section MapRead

variable {s s₁ : Kernel} {entrySize : UInt32} {entries : List MmapEntry} {fuel : ℕ}

/-- **After the map was read, runs return described frames only, exactly when** every frame is described, or
else reading the map marks the last frame of the bitmap and those in it that are not described. -/
theorem memoryMap_described_iff (hfirst : s.pfa.initialized = false) (hstored : MapStored s entrySize entries)
    (hfuel : entries.length < fuel) :
    ∃ s₁, pfaReadMultibootMemoryMap fuel s = .ok ⟨⟩ s₁ ∧
      ((∀ s₂ live, PfaRun AnyRequest s₁ s₂ live → ∀ b ∈ live, Disjoint b.frames (undescribedFrames entries)) ↔
        undescribedFrames entries = ∅ ∨
          ((mapBitmapSize entries).toNat * 8 - 1 ∈ mapFrames s.kernelEnd s.tags.memoryMap entrySize entries ∧
            ∀ f ∈ undescribedFrames entries, f < (mapBitmapSize entries).toNat * 8 →
              f ∈ mapFrames s.kernelEnd s.tags.memoryMap entrySize entries)) := by
  obtain ⟨s₁, hrun, h⟩ := pfaReadMultibootMemoryMap_ok hfirst hstored hfuel
  have hlength := h.length_eq
  have hpos : 0 < (mapBitmapSize entries).toNat := by rw [toNat_mapBitmapSize]; omega
  refine ⟨s₁, hrun, ?_⟩
  rw [PfaRun.disjoint_iff h.length_le (by omega) fun f hf => hf.1, hlength, h.mem_marked (by omega)]
  refine or_congr_right (and_congr_right fun _ => forall_congr' fun f => forall_congr' fun _ => ?_)
  exact forall_congr' fun hlt => h.mem_marked hlt

/-- A kernel of less than a mebibyte by a page, whose memory ends there too. -/
def tightKernel : Kernel :=
  { Kernel.loaded with
    mem := fun a => ([6, 0, 0, 0, 40, 0, 0, 0, 24, 0, 0, 0, 0, 0, 0, 0,
      0, 0, 0, 0, 0, 0, 0, 0, 0, 0xF0, 0x0F, 0, 0, 0, 0, 0, 1, 0, 0, 0, 0, 0, 0, 0] :
      List UInt8).getD (a - 0x10000).toNat 0
    kernelEnd := 0xFF000
    tags := { Kernel.loaded.tags with memoryMap := 0x10000 } }

theorem tightKernel_stored : MapStored tightKernel 24 [⟨0, 0xFF000, 1⟩] := by
  have htag : MmapTag tightKernel.mem 0x10000 24 [⟨0, 0xFF000, 1⟩] :=
    ⟨by decide, by decide, by decide, by decide, by decide, by decide⟩
  exact mapStored_of_below htag (by decide) (by decide)

theorem memoryMap_described_tightKernel : ∃ s₁, pfaReadMultibootMemoryMap 2 tightKernel = .ok ⟨⟩ s₁ ∧
    ∀ s₂ live, PfaRun AnyRequest s₁ s₂ live → ∀ b ∈ live,
    Disjoint b.frames (undescribedFrames [⟨0, 0xFF000, 1⟩]) := by
  obtain ⟨s₁, hrun, hiff⟩ := memoryMap_described_iff rfl tightKernel_stored (by decide : 1 < 2)
  -- the only frame of the bitmap that is not described is the bitmap's own page
  have hlast : 255 ∈ mapFrames tightKernel.kernelEnd 0x10000 24 [⟨0, 0xFF000, 1⟩] :=
    Or.inl ⟨0, by decide, by decide⟩
  have hsize : (mapBitmapSize [⟨0, 0xFF000, 1⟩]).toNat * 8 = 256 := by decide
  refine ⟨s₁, hrun, hiff.mpr (Or.inr ⟨?_, ?_⟩)⟩
  · rw [hsize]
    exact hlast
  · rintro f ⟨-, a, rfl, hnone⟩ hlt
    rw [hsize] at hlt
    have hout := hnone _ List.mem_cons_self
    change ¬ (0 ≤ a ∧ a < 0 + 0xFF000) at hout
    rw [show a / 4096 = 255 by omega]
    exact hlast

/-- Requests for a page return a frame above the end of all memory, one of the spare bits. -/
theorem memoryMap_returns_undescribed : ∃ s₁ s₂ live,
    pfaReadMultibootMemoryMap 3 (mapKernel 0 1) = .ok ⟨⟩ s₁ ∧
    PfaRun AnyRequest s₁ s₂ live ∧ ∃ b ∈ live, 257 ∈ b.frames ∧
      257 ∈ undescribedFrames [⟨0, 0x100000, 1⟩, ⟨0x10000, 0x1000, 2⟩] := by
  have hstored := mapKernel_stored 0x100000 (by decide) (by decide)
  obtain ⟨s₁, hrun, h⟩ := pfaReadMultibootMemoryMap_ok rfl hstored (by decide : 2 < 3)
  have hnot : 257 ∉ mapFrames 0x100000 0x10000 24 [⟨0, 0x100000, 1⟩, ⟨0x10000, 0x1000, 2⟩] :=
    notMem_mapFrames_pair (by decide) rfl (by decide) (by decide) (by decide)
  obtain ⟨s₂, live, hcalls, b, hb, hfb⟩ := h.returns anyRequest_page (by decide) hnot
  refine ⟨s₁, s₂, live, hrun, hcalls, b, hb, hfb, by decide, 257 * 4096, by decide, fun entry hentry => ?_⟩
  rcases List.mem_cons.mp hentry with rfl | hentry
  · decide
  · rw [List.mem_singleton.mp hentry]
    decide

/-- The address of a frame leads back to the frame, and to no other. -/
theorem page_of_index {index : ℕ} (h : index < 2 ^ 20) (t : Kernel) :
    (UInt32.ofNat index * 4096).toNat = index * 4096 ∧
      Marks true {index} t (pfaLockPage (UInt32.ofNat index * 4096) t) ∧
      Marks false {index} t (pfaFreePage (UInt32.ofNat index * 4096) t) := by
  have hframe := toNat_frame h
  have haligned := toNat_page_aligned index
  have hlock := pfaLockPage_marks (UInt32.ofNat index * 4096) t
  have hfree := pfaFreePage_marks (UInt32.ofNat index * 4096) t
  rw [hframe] at hlock hfree
  exact ⟨by omega, hlock, hfree⟩

/-- **The indices of the bitmap are frames**: there are at most `2 ^ 20`, so the address of each does not
wrap, what a request returns is one of these addresses, and locking or freeing it goes to that index. -/
theorem pfaReadMultibootMemoryMap_indices (hfirst : s.pfa.initialized = false)
    (hrun : pfaReadMultibootMemoryMap fuel s = .ok ⟨⟩ s₁) :
    s₁.pfa.pageBitmap.size.toNat * 8 ≤ 2 ^ 20 ∧
    ∀ t, t.pfa.pageBitmap = s₁.pfa.pageBitmap →
      t.pfa.pageBitmap.length = s₁.pfa.pageBitmap.size.toNat * 8 ∧
      (∀ index < t.pfa.pageBitmap.length, (UInt32.ofNat index * 4096).toNat = index * 4096 ∧
        Marks true {index} t (pfaLockPage (UInt32.ofNat index * 4096) t) ∧
        Marks false {index} t (pfaFreePage (UInt32.ofNat index * 4096) t)) ∧
      ∀ (q : PfaRequest) (page : UInt32) (t' : Kernel), q.run t = .ok (some page) t' →
        ∃ index < t.pfa.pageBitmap.length, page.toNat = index * 4096 ∧ page / 4096 = UInt32.ofNat index := by
  obtain ⟨memorySize, hbitmap, -⟩ := pfaReadMultibootMemoryMap_made hfirst hrun
  have hsize : s₁.pfa.pageBitmap.size.toNat * 8 ≤ 2 ^ 20 := by
    have hlt := memorySize.toNat_lt
    rw [hbitmap, toNat_bitmapSize]
    omega
  refine ⟨hsize, fun t ht => ?_⟩
  have hlength : t.pfa.pageBitmap.length = s₁.pfa.pageBitmap.size.toNat * 8 := by
    rw [ht]
    exact Bitmap.length_eq (by omega)
  refine ⟨hlength, fun index hindex => page_of_index (by omega) t, fun q page t' hcall => ?_⟩
  obtain ⟨index, hfind, rfl, -⟩ := PfaRequest.of_run_some hcall
  have hindex := (findRun_eq_some.mp hfind).2.1.1
  refine ⟨index, hindex, (page_of_index (by omega) t).1, ?_⟩
  rw [← UInt32.toNat_inj, UInt32.toNat_div, UInt32.toNat_ofNat', Nat.mod_eq_of_lt (by omega)]
  exact toNat_frame (by omega)

theorem pfaReadMultibootMemoryMap_indices_tightKernel : ∃ s₁,
    pfaReadMultibootMemoryMap 2 tightKernel = .ok ⟨⟩ s₁ ∧ s₁.pfa.pageBitmap.size.toNat * 8 ≤ 2 ^ 20 := by
  obtain ⟨s₁, hrun, -⟩ := pfaReadMultibootMemoryMap_ok rfl tightKernel_stored (by decide : 1 < 2)
  exact ⟨s₁, hrun, (pfaReadMultibootMemoryMap_indices rfl hrun).1⟩

/-- A map of 4 GiB less a byte has all the frames. -/
example : (mapBitmapSize [⟨0, 0xFFFFFFFF, 1⟩]).toNat * 8 = 2 ^ 20 := by decide

end MapRead

end JurasOS
