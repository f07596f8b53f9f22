import JurasOS.Boot.MemoryMap
import JurasOS.Paging.Runs

/-!
# Runs after the memory map was read

Which frames of regions that are not available a request may return: those in
the bitmap that reading the map has not marked. A run of requests and frees of
live blocks returns none of the marked ones, if its requests for several pages
find room or a bitmap whose last frame is taken; and requests for one page, made
long enough, return any clear one.
-/

namespace JurasOS

open Machine Alloc

/-- The frames that meet a region that is not available. -/
def unavailableFrames (entries : List MmapEntry) : Set ℕ :=
  {f | ∃ entry ∈ entries, entry.available = false ∧
    ∃ a, entry.addr.toNat ≤ a ∧ a < entry.addr.toNat + entry.len.toNat ∧ a / 4096 = f}

section PfaRun

variable {s₀ s s' : Kernel} {live : List PageBlock} {R : Set ℕ}

/-- **A run returns no frame that was marked at its start**, and its blocks end in the bitmap. -/
theorem PfaRun.avoids (hsmall : s₀.pfa.pageBitmap.length ≤ 2 ^ 20) (hR : R ⊆ s₀.marked)
    (hrun : PfaRun FitsOrFull s₀ s live) :
    s.pfa.pageBitmap = s₀.pfa.pageBitmap ∧ R ⊆ s.marked ∧ ∀ b ∈ live, Disjoint b.frames R ∧
      b.address.toNat / 4096 + b.count.toNat ≤ s.pfa.pageBitmap.length := by
  induction hrun with
  | start => exact ⟨rfl, hR, fun _ hb => absurd hb List.not_mem_nil⟩
  | request q _ hcount hcall hfits ih =>
    obtain ⟨hbitmap, hmarked, hlive⟩ := ih
    rw [← hbitmap] at hsmall
    have hgrew := (q.run_grew).of_ok hcall
    refine ⟨hgrew.bitmap.trans hbitmap, hmarked.trans hgrew.marked_subset, fun b hb => ?_⟩
    rw [hgrew.bitmap]
    rcases List.mem_cons.mp hb with rfl | hb
    · exact ⟨PfaRequest.disjoint_of_run_some hsmall hmarked hcall,
        PfaRequest.inside_of_fitsOrFull hsmall hcall hfits⟩
    · exact hlive b hb
  | null q _ hcount hcall ih => rwa [PfaRequest.eq_of_null hcall]
  | @freePage s live b _ hb hone ih =>
    obtain ⟨hbitmap, hmarked, hlive⟩ := ih
    have hmarks := b.freePage_marks hone s
    rw [hmarks.marked_sdiff, hmarks.bitmap]
    exact ⟨hbitmap, fun f hf => ⟨hmarked hf, fun hbf => Set.disjoint_left.mp (hlive b hb).1 hbf hf⟩,
      fun c hc => hlive c (List.mem_of_mem_erase hc)⟩
  | @freePages s live b _ hb ih =>
    obtain ⟨hbitmap, hmarked, hlive⟩ := ih
    rw [← hbitmap] at hsmall
    have hinside := (hlive b hb).2
    have hmarks := b.free_marks (by omega) s
    rw [hmarks.marked_sdiff, hmarks.bitmap]
    exact ⟨hbitmap, fun f hf => ⟨hmarked hf, fun hbf => Set.disjoint_left.mp (hlive b hb).1 hbf hf⟩,
      fun c hc => hlive c (List.mem_of_mem_erase hc)⟩

/-- A request for a page locks the first clear frame. -/
theorem pfaRequestPage_of_clear {i : ℕ} (hsearch : clearPage s = some i) (hi : i < 2 ^ 20) :
    ∃ s', PfaRequest.page.run s = .ok (some (UInt32.ofNat i * 4096)) s' ∧ Marks true {i} s s' := by
  refine ⟨pfaLockPage (UInt32.ofNat i * 4096) s, ?_, ?_⟩
  · rw [PfaRequest.run, pfaRequestPage, pfaRequest_of_some hsearch]
    rfl
  · have hmarks := pfaLockPage_marks (UInt32.ofNat i * 4096) s
    rwa [toNat_frame hi] at hmarks

/-- **Requests for a page, made long enough, return any clear frame.** -/
theorem PfaRun.returns {Guard : Kernel → PfaRequest → UInt32 → Prop}
    (hguard : ∀ s page, Guard s .page page) {f : ℕ} (hrun : PfaRun Guard s₀ s live)
    (hsmall : s.pfa.pageBitmap.length ≤ 2 ^ 20) (hf : f < s.pfa.pageBitmap.length)
    (hclear : s.taken f = false) : ∃ s' live', PfaRun Guard s₀ s' live' ∧ ∃ b ∈ live', f ∈ b.frames := by
  -- every request takes the first clear frame, so fewer of those before `f` are left
  obtain ⟨n, hbefore⟩ : ∃ n, ∀ j < f - n, s.taken j = true := ⟨f, fun j hj => by omega⟩
  induction n using Nat.strong_induction_on generalizing s live with
  | _ n ih =>
    cases hsearch : clearPage s with
    | none =>
      rw [firstClear_eq_none.mp hsearch f hf] at hclear
      cases hclear
    | some i =>
      obtain ⟨hlt, hi, hfirst⟩ := firstClear_eq_some.mp hsearch
      obtain ⟨s', hcall, hmarks⟩ := pfaRequestPage_of_clear hsearch (by omega)
      have hrun' := hrun.request .page (by decide) hcall (hguard s _)
      have hif : i ≤ f := by
        by_contra hfi
        rw [hfirst f (by omega)] at hclear
        cases hclear
      rcases Nat.eq_or_lt_of_le hif with rfl | hif
      · refine ⟨s', _, hrun', _, List.mem_cons_self, ?_⟩
        have hmem : (UInt32.ofNat i * 4096).toNat / 4096 ∈ blockFrames (UInt32.ofNat i * 4096) 1 :=
          mem_blockFrames (by decide)
        rwa [toNat_frame (by omega)] at hmem
      · have hni : f - n ≤ i := by
          by_contra hin
          rw [hbefore i (by omega)] at hi
          cases hi
        refine ih (f - (i + 1)) (by omega) hrun' (by rwa [hmarks.length]) (by rwa [hmarks.length]) ?_
          fun j hj => ?_
        · rw [hmarks.outside f (by rw [Set.mem_singleton_iff]; omega) (by omega)]
          exact hclear
        · by_cases hji : j = i
          · exact hmarks.inside j hji (by omega)
          · rw [hmarks.outside j hji (by omega)]
            exact hfirst j (by omega)

/-- So from the start of a run any frame of the bitmap that is not marked. -/
theorem exists_pfaRun_returns {Guard : Kernel → PfaRequest → UInt32 → Prop}
    (hguard : ∀ s page, Guard s .page page) {f : ℕ} (hsmall : s.pfa.pageBitmap.length ≤ 2 ^ 20)
    (hf : f < s.pfa.pageBitmap.length) (hnot : f ∉ s.marked) :
    ∃ s' live, PfaRun Guard s s' live ∧ ∃ b ∈ live, f ∈ b.frames := by
  have hclear : s.taken f = false := by
    rw [← Bool.not_eq_true]
    exact fun htaken => hnot ⟨hf, htaken⟩
  have hstart : PfaRun Guard s s [] := .start
  exact hstart.returns hguard hsmall hf hclear

end PfaRun

/-! ### The regions that are not available -/

section MapRead

variable {s s₁ : Kernel} {entrySize : UInt32} {entries : List MmapEntry}

theorem MapRead.length_eq (h : MapRead s s₁ entrySize entries) :
    s₁.pfa.pageBitmap.length = (mapBitmapSize entries).toNat * 8 := by
  rw [h.bitmap, mapBitmapSize_length]

theorem MapRead.length_le (h : MapRead s s₁ entrySize entries) : s₁.pfa.pageBitmap.length ≤ 2 ^ 20 := by
  have := mapBitmapSize_le entries
  rw [h.length_eq]
  omega

theorem MapRead.mem_marked (h : MapRead s s₁ entrySize entries) {f : ℕ}
    (hf : f < (mapBitmapSize entries).toNat * 8) :
    f ∈ s₁.marked ↔ f ∈ mapFrames s.kernelEnd s.tags.memoryMap entrySize entries := by
  rw [h.marked, h.length_eq]
  exact and_iff_left hf

/-- Requests for a page return any frame of the bitmap that reading the map has not marked. -/
theorem MapRead.returns (h : MapRead s s₁ entrySize entries) {Guard : Kernel → PfaRequest → UInt32 → Prop}
    (hguard : ∀ s page, Guard s .page page) {f : ℕ} (hf : f < (mapBitmapSize entries).toNat * 8)
    (hnot : f ∉ mapFrames s.kernelEnd s.tags.memoryMap entrySize entries) :
    ∃ s₂ live, PfaRun Guard s₁ s₂ live ∧ ∃ b ∈ live, f ∈ b.frames := by
  rw [← h.mem_marked hf] at hnot
  exact exists_pfaRun_returns hguard h.length_le (by rwa [h.length_eq]) hnot

/-- **After the map was read, runs stay out of the regions that are not available exactly when** their
frames in the bitmap are among those that reading the map marks: those of the bitmap's own pages, and those
from the addresses of the entries on. Runs are those whose requests for several pages fit, or find the last
frame taken. -/
theorem memoryMap_avoided_iff (hfirst : s.pfa.initialized = false)
    (hstored : MapStored s entrySize entries) {fuel : ℕ} (hfuel : entries.length < fuel) :
    ∃ s₁, pfaReadMultibootMemoryMap fuel s = .ok ⟨⟩ s₁ ∧
      ((∀ s₂ live, PfaRun FitsOrFull s₁ s₂ live → ∀ b ∈ live, Disjoint b.frames (unavailableFrames entries)) ↔
        ∀ f ∈ unavailableFrames entries, f < (mapBitmapSize entries).toNat * 8 →
          f ∈ mapFrames s.kernelEnd s.tags.memoryMap entrySize entries) := by
  obtain ⟨s₁, hrun, h⟩ := pfaReadMultibootMemoryMap_ok hfirst hstored hfuel
  refine ⟨s₁, hrun, fun hsafe f hf hlt => ?_, fun hcover s₂ live hcalls b hb => ?_⟩
  · by_contra hnot
    obtain ⟨s₂, live, hcalls, b, hb, hfb⟩ := h.returns fitsOrFull_page hlt hnot
    exact Set.disjoint_left.mp (hsafe s₂ live hcalls b hb) hfb hf
  · have hR : unavailableFrames entries ∩ Set.Iio s₁.pfa.pageBitmap.length ⊆ s₁.marked := by
      rintro f ⟨hf, hlt⟩
      rw [Set.mem_Iio, h.length_eq] at hlt
      exact (h.mem_marked hlt).mpr (hcover f hf hlt)
    obtain ⟨hbitmap, -, hlive⟩ := hcalls.avoids h.length_le hR
    obtain ⟨hdisj, hinside⟩ := hlive b hb
    refine Set.disjoint_left.mpr fun f hf hun => Set.disjoint_left.mp hdisj hf ⟨hun, ?_⟩
    rw [← hbitmap]
    exact lt_of_lt_of_le hf.2 hinside

/-- The bits of all frames lie in the first `2 ^ 17` bytes from the bitmap on. -/
theorem bytes_mapFrames_subset (size kernelEnd tag entrySize : UInt32) (entries : List MmapEntry) :
    Bitmap.bytes ⟨size, kernelEnd⟩ (mapFrames kernelEnd tag entrySize entries) ⊆ span kernelEnd (2 ^ 17) := by
  refine Bitmap.bytes_subset_span (fun f hf => ?_) (by decide)
  rcases hf with hf | ⟨i, hi, -, -, hf⟩ <;> exact frames_lt hf

/-- A map stored below the kernel's end is clear of the bitmap and of the bits of all frames. -/
theorem mapStored_of_below (h : MmapTag s.mem s.tags.memoryMap entrySize entries)
    (hbelow : s.tags.memoryMap.toNat + tagBytes entrySize entries.length ≤ s.kernelEnd.toNat)
    (hfit : s.kernelEnd.toNat + 2 ^ 17 ≤ 2 ^ 32) : MapStored s entrySize entries := by
  have hspan : Disjoint (span s.tags.memoryMap (tagBytes entrySize entries.length))
    (span s.kernelEnd (2 ^ 17)) :=
    disjoint_span (by omega) hfit (Or.inl hbelow)
  exact ⟨h, hspan.mono_right (span_mono (mapBitmapSize_le entries)),
    hspan.mono_right (bytes_mapFrames_subset _ _ _ _ _)⟩

/-- Reading the map writes nothing below the kernel's end. -/
theorem MapRead.mem_below (h : MapRead s s₁ entrySize entries)
    (hfit : s.kernelEnd.toNat + 2 ^ 17 ≤ 2 ^ 32) {a : UInt32} (ha : a.toNat < s.kernelEnd.toNat) :
    s₁.mem a = s.mem a := by
  have hout : a ∉ span s.kernelEnd (2 ^ 17) := by
    rw [mem_span_iff hfit]
    omega
  refine h.mem fun hmem => hout ?_
  rcases hmem with hmem | hmem
  · exact span_mono (mapBitmapSize_le entries) hmem
  · exact bytes_mapFrames_subset _ _ _ _ _ hmem

/-- With a region that is available and one of a page that is not, reading the map marks two frames
only, if its bitmap has one page. -/
theorem mem_mapFrames_pair {kernelEnd tag : UInt32} {entry reserved : MmapEntry}
    (hbitmap : (numPages (mapBitmapSize [entry, reserved])).toNat = 1) (havailable : entry.available = true)
    (hpage : (numPages reserved.lenLow).toNat = 1) {f : ℕ}
    (hf : f ∈ mapFrames kernelEnd tag entrySize [entry, reserved]) :
    f = kernelEnd.toNat / 4096 % 2 ^ 20 ∨ f = (entryAt tag entrySize 1).toNat / 4096 % 2 ^ 20 := by
  rcases hf with ⟨i, hi, rfl⟩ | ⟨i, hi, -, hunavailable, j, hj, rfl⟩
  · left
    rw [hbitmap, Nat.lt_one_iff] at hi
    rw [hi, Nat.add_zero]
  · right
    have hi' : i < 2 := hi
    obtain rfl | rfl : i = 0 ∨ i = 1 := by omega
    · rw [show [entry, reserved][0] = entry from rfl, havailable] at hunavailable
      cases hunavailable
    · rw [show [entry, reserved][1] = reserved from rfl, hpage, Nat.lt_one_iff] at hj
      rw [hj, Nat.add_zero]

theorem notMem_mapFrames_pair {kernelEnd tag : UInt32} {entry reserved : MmapEntry}
    (hbitmap : (numPages (mapBitmapSize [entry, reserved])).toNat = 1) (havailable : entry.available = true)
    (hpage : (numPages reserved.lenLow).toNat = 1) {f : ℕ} (hend : f ≠ kernelEnd.toNat / 4096 % 2 ^ 20)
    (hentry : f ≠ (entryAt tag entrySize 1).toNat / 4096 % 2 ^ 20) :
    f ∉ mapFrames kernelEnd tag entrySize [entry, reserved] := fun hf =>
  (mem_mapFrames_pair hbitmap havailable hpage hf).elim hend hentry

/-- A memory map of two entries: a mebibyte that is available, and a reserved page at `b₁ * 256 + b₂
* 65536`. -/
def smallMap (b₁ b₂ : UInt8) : List UInt8 :=
  [6, 0, 0, 0, 64, 0, 0, 0, 24, 0, 0, 0, 0, 0, 0, 0,
    0, 0, 0, 0, 0, 0, 0, 0, 0, 0, 0x10, 0, 0, 0, 0, 0, 1, 0, 0, 0, 0, 0, 0, 0,
    0, b₁, b₂, 0, 0, 0, 0, 0, 0, 0x10, 0, 0, 0, 0, 0, 0, 2, 0, 0, 0, 0, 0, 0, 0]

/-- A kernel of a mebibyte, with this map at `0x10000`. -/
def mapKernel (b₁ b₂ : UInt8) : Kernel :=
  { Kernel.loaded with
    mem := fun a => (smallMap b₁ b₂).getD (a - 0x10000).toNat 0
    kernelEnd := 0x100000
    tags := { Kernel.loaded.tags with memoryMap := 0x10000 } }

/-- The map of a kernel whose end is anywhere in the page after the first mebibyte. -/
theorem mapKernel_stored (kernelEnd : UInt32) (hlo : 0x100000 ≤ kernelEnd.toNat)
    (hhi : kernelEnd.toNat < 0x101000) :
    MapStored { mapKernel 0 1 with kernelEnd := kernelEnd } 24
      [⟨0, 0x100000, 1⟩, ⟨0x10000, 0x1000, 2⟩] := by
  have htag : MmapTag (mapKernel 0 1).mem 0x10000 24 [⟨0, 0x100000, 1⟩, ⟨0x10000, 0x1000, 2⟩] :=
    ⟨by decide, by decide, by decide, by decide, by decide, by decide⟩
  refine mapStored_of_below htag ?_ ?_
  · show 0x10000 + 64 ≤ kernelEnd.toNat
    omega
  · show kernelEnd.toNat + 2 ^ 17 ≤ 2 ^ 32
    omega

/-- A kernel of half a mebibyte, with a mebibyte of memory and two reserved pages after it. -/
def splitKernel : Kernel :=
  { Kernel.loaded with
    mem := fun a => ([6, 0, 0, 0, 88, 0, 0, 0, 24, 0, 0, 0, 0, 0, 0, 0,
      0, 0, 0, 0, 0, 0, 0, 0, 0, 0, 0x10, 0, 0, 0, 0, 0, 1, 0, 0, 0, 0, 0, 0, 0,
      0, 0, 0x10, 0, 0, 0, 0, 0, 0, 0x10, 0, 0, 0, 0, 0, 0, 2, 0, 0, 0, 0, 0, 0, 0,
      0, 0x10, 0x10, 0, 0, 0, 0, 0, 0, 0x10, 0, 0, 0, 0, 0, 0, 2, 0, 0, 0, 0, 0, 0, 0] : List UInt8).getD
        (a - 0x10000).toNat 0
    kernelEnd := 0x80000
    tags := { Kernel.loaded.tags with memoryMap := 0x10000 } }

theorem memoryMap_avoided_mapKernel : ∃ s₁, pfaReadMultibootMemoryMap 3 (mapKernel 0 1) = .ok ⟨⟩ s₁ ∧
    ∀ s₂ live, PfaRun FitsOrFull s₁ s₂ live → ∀ b ∈ live, 16 ∉ b.frames := by
  have hstored := mapKernel_stored 0x100000 (by decide) (by decide)
  obtain ⟨s₁, hrun, hiff⟩ := memoryMap_avoided_iff rfl hstored (by decide : 2 < 3)
  have hcover : ∀ f ∈ unavailableFrames [⟨0, 0x100000, 1⟩, ⟨0x10000, 0x1000, 2⟩], f = 16 := by
    rintro f ⟨entry, hentry, havail, a, hlo, hhi, rfl⟩
    rcases List.mem_cons.mp hentry with rfl | hentry
    · cases havail
    · rw [List.mem_singleton.mp hentry] at hlo hhi
      show a / 4096 = 16
      change 0x10000 ≤ a at hlo
      change a < 0x10000 + 0x1000 at hhi
      omega
  refine ⟨s₁, hrun, fun s₂ live hcalls b hb hmem => ?_⟩
  refine Set.disjoint_left.mp (hiff.mpr (fun f hf _ => Or.inr ?_) s₂ live hcalls b hb) hmem ?_
  · rw [hcover f hf]
    exact ⟨1, by decide, by decide, rfl, 0, by decide, by decide⟩
  · exact ⟨⟨0x10000, 0x1000, 2⟩, by simp, rfl, 0x10000, le_rfl, by decide, rfl⟩

/-- With a reserved page at `0x2000`, requests for a page return it: the frame that is reserved is that
of the entry in the map. -/
theorem memoryMap_returns_reserved : ∃ s₁ s₂ live,
    pfaReadMultibootMemoryMap 3 (mapKernel 0x20 0) = .ok ⟨⟩ s₁ ∧
    PfaRun FitsOrFull s₁ s₂ live ∧ ∃ b ∈ live, 2 ∈ b.frames ∧
      2 ∈ unavailableFrames [⟨0, 0x100000, 1⟩, ⟨0x2000, 0x1000, 2⟩] := by
  have htag : MmapTag (mapKernel 0x20 0).mem 0x10000 24 [⟨0, 0x100000, 1⟩, ⟨0x2000, 0x1000, 2⟩] :=
    ⟨by decide, by decide, by decide, by decide, by decide, by decide⟩
  obtain ⟨s₁, hrun, h⟩ := pfaReadMultibootMemoryMap_ok rfl (mapStored_of_below htag (by decide) (by decide))
    (by decide : 2 < 3)
  have hnot : 2 ∉ mapFrames 0x100000 0x10000 24 [⟨0, 0x100000, 1⟩, ⟨0x2000, 0x1000, 2⟩] :=
    notMem_mapFrames_pair (by decide) rfl (by decide) (by decide) (by decide)
  obtain ⟨s₂, live, hcalls, b, hb, hfb⟩ := h.returns fitsOrFull_page (by decide) hnot
  exact ⟨s₁, s₂, live, hrun, hcalls, b, hb, hfb, ⟨0x2000, 0x1000, 2⟩, by simp, rfl, 0x2000,
    le_rfl, by decide, rfl⟩

end MapRead

end JurasOS
